import Uatu.Engine.WatchChecked

/-!
# What the eBPF path acquires

The links, the ring buffer and the object of `UprobeLoader` over a whole `watch_checked`. A link is
acquired when `bpf_program__attach_uprobe` returns it, and it is the vector's links that are
released. While the loader is there it holds what has been acquired, so the vector has exactly the
links that were created (`World.Opening`); `detach_all` and the destructor release it
(`World.Closing`, `World.Closed`), and the fallback has no part in it. So everything is released
exactly once, before the fallback attaches to the process (`resources_released`).
-/

namespace Uatu

open Lifetimes Throwing

variable {R : Type}

/-! ## What is held -/

namespace World

/-- What the loader holds. -/
def Held (w : World R) : Resource → Prop
  | .object => w.obj = true
  | .ring => w.ring = true
  | .link n => ∃ link ∈ w.loader.links, link.id = n

/-- What has happened to the resources. -/
def moves (w : World R) : List (Move Resource) := w.log.filterMap Action.move?

variable {w : World R}

theorem moves_append {log : List Action} :
    ({ w with log := w.log ++ log } : World R).moves = w.moves ++ log.filterMap Action.move? :=
  List.filterMap_append

/-- Every link that was created has been acquired. -/
def Logged (w : World R) : Prop := ∀ link ∈ w.loader.created, .acquire link.resource ∈ w.moves

/-- There is a loader that has released nothing. -/
structure Opening (w : World R) : Prop where
  fresh : Fresh w.Held w.moves
  keeps : w.loader.Keeps
  logged : w.Logged
  noAttach : .attach ∉ w.log

/-- There is a loader. -/
structure Closing (w : World R) : Prop where
  tidy : Tidy w.Held w.moves
  ids : (w.loader.links.map BpfLink.id).Nodup
  logged : w.Logged
  noAttach : .attach ∉ w.log

/-- The loader is gone, with everything that it held. -/
structure Closed (w : World R) : Prop where
  tidy : Tidy (fun _ => False) w.moves
  logged : w.Logged
  noAttach : .attach ∉ w.log

theorem Opening.closing (h : w.Opening) : w.Closing where
  tidy := h.fresh.tidy
  ids := by
    rw [h.keeps.links, h.keeps.ids]
    exact List.nodup_range
  logged := h.logged
  noAttach := h.noAttach

/-- What is acquired or released does not matter for what was. -/
theorem Logged.of_append {w' : World R} {moves : List (Move Resource)} (h : w.Logged)
    (hcreated : w'.loader.created = w.loader.created) (hmoves : w'.moves = w.moves ++ moves) :
    w'.Logged := by
  intro link hlink
  rw [hcreated] at hlink
  rw [hmoves]
  exact List.mem_append_left _ (h link hlink)

theorem nodup_resources {links : List BpfLink} (h : (links.map BpfLink.id).Nodup) :
    (links.map BpfLink.resource).Nodup := by
  have hnodup := h.map fun _ _ h => Resource.link.inj h
  rwa [List.map_map] at hnodup

theorem moves_act {a : Action} : (w.act a).moves = w.moves ++ a.move?.toList := by
  rw [act, moves_append]
  cases h : a.move? <;> simp [h]

/-- Polls and tests of the flag do not matter. -/
theorem Opening.act (h : w.Opening) {a : Action} (hmove : a.move? = none) (ha : a ≠ .attach) :
    (w.act a).Opening where
  fresh := by
    rw [moves_act, hmove, Option.toList_none, List.append_nil]
    exact h.fresh.congr fun r => by cases r <;> rfl
  keeps := h.keeps
  logged := h.logged.of_append rfl moves_act
  noAttach := by
    rw [World.act, List.mem_append, List.mem_singleton, not_or]
    exact ⟨h.noAttach, ha.symm⟩

theorem moves_attached {loader : UprobeLoader} {links : List BpfLink}
    (hlinks : w.loader.created ++ links = loader.created) : (w.attached loader).moves =
      w.moves ++ (links.map BpfLink.resource).map Move.acquire := by
  rw [moves, World.attached, List.filterMap_append, List.filterMap_map, newLinks, ← hlinks,
    List.drop_left]
  simp [moves, Action.move?, Function.comp_def]

/-- New links are created, and put into the loader. -/
theorem Opening.attached (h : w.Opening) {loader : UprobeLoader} (hkeeps : loader.Keeps)
    (hcreated : w.loader.created <+: loader.created) : (w.attached loader).Opening := by
  obtain ⟨links, hlinks⟩ := hcreated
  -- the numbers of all links, of which the new ones are the last
  have hids : (w.loader.created.map BpfLink.id ++ links.map BpfLink.id).Nodup := by
    rw [← List.map_append, hlinks, hkeeps.ids]
    exact List.nodup_range
  refine ⟨?_, hkeeps, fun link hlink => ?_, by simp [World.attached, h.noAttach]⟩
  · rw [moves_attached hlinks]
    refine (h.fresh.acquireAll (nodup_resources hids.of_append_right) ?_).congr fun r => ?_
    · intro r hr hheld
      obtain ⟨link, hlink, rfl⟩ := List.mem_map.1 hr
      obtain ⟨old, hold, hid⟩ := hheld
      rw [h.keeps.links] at hold
      exact (List.nodup_append.1 hids).2.2 _ (List.mem_map_of_mem hold) _
        (List.mem_map_of_mem hlink) hid
    · cases r with
      | object => simp [Held, World.attached, BpfLink.resource]
      | ring => simp [Held, World.attached, BpfLink.resource]
      | link n =>
        simp only [Held, World.attached, hkeeps.links, h.keeps.links, ← hlinks, List.mem_append,
          List.mem_map, BpfLink.resource, Resource.link.injEq, or_and_right, exists_or]
        exact or_comm
  · change link ∈ loader.created at hlink
    rw [← hlinks] at hlink
    rw [moves_attached hlinks]
    rcases List.mem_append.1 hlink with hlink | hlink
    · exact List.mem_append_left _ (h.logged link hlink)
    · exact List.mem_append_right _ (List.mem_map_of_mem (List.mem_map_of_mem hlink))

/-- The object or the ring buffer is created. -/
theorem Opening.acquire {w' : World R} {r : Resource} (h : w.Opening) (hr : ¬ w.Held r)
    (hlog : w'.log = (w.acquire r).log) (hloader : w'.loader = w.loader)
    (hheld : ∀ x, w'.Held x ↔ x = r ∨ w.Held x) : w'.Opening := by
  have hmoves : w'.moves = w.moves ++ [.acquire r] := by
    rw [moves, hlog]
    exact moves_act
  refine ⟨?_, hloader ▸ h.keeps, h.logged.of_append (by rw [hloader]) hmoves, ?_⟩
  · rw [hmoves]
    exact (h.fresh.acquire hr).congr hheld
  · simp [hlog, World.acquire, World.act, h.noAttach]

/-- The object or the ring buffer is released. -/
theorem Closing.release {w' : World R} {r : Resource} (h : w.Closing) (hr : w.Held r)
    (hlog : w'.log = (w.release r).log) (hloader : w'.loader = w.loader)
    (hheld : ∀ x, w'.Held x ↔ x ≠ r ∧ w.Held x) : w'.Closing := by
  have hmoves : w'.moves = w.moves ++ [.release r] := by
    rw [moves, hlog]
    exact moves_act
  refine ⟨?_, hloader ▸ h.ids, h.logged.of_append (by rw [hloader]) hmoves, ?_⟩
  · rw [hmoves]
    exact (h.tidy.release hr).congr hheld
  · simp [hlog, World.release, World.act, h.noAttach]

/-- All links are destroyed. -/
theorem Closing.detached (h : w.Closing) : w.detached.Closing := by
  have hmoves : w.detached.moves = w.moves ++ w.links.map Move.release := by
    rw [moves, World.detached, List.filterMap_append, List.filterMap_map]
    simp [moves, Action.move?, Function.comp_def]
  refine ⟨?_, List.nodup_nil, h.logged.of_append rfl hmoves, by simp [World.detached, h.noAttach]⟩
  rw [hmoves]
  refine (h.tidy.releaseAll (nodup_resources h.ids) ?_).congr fun r => ?_
  · intro r hr
    obtain ⟨link, hlink, rfl⟩ := List.mem_map.1 hr
    exact ⟨link, hlink, rfl⟩
  · cases r with
    | object => simp [Held, World.detached, World.links, BpfLink.resource]
    | ring => simp [Held, World.detached, World.links, BpfLink.resource]
    | link n => simp [Held, World.detached, World.links, BpfLink.resource]

/-- Without an object, a ring buffer and links nothing is held. -/
theorem not_held (hobj : w.obj = false) (hring : w.ring = false) (hlinks : w.loader.links = []) :
    ∀ r, ¬ w.Held r
  | .object => by simp [Held, hobj]
  | .ring => by simp [Held, hring]
  | .link n => by simp [Held, hlinks]

/-- Nothing is held any more. -/
theorem Closing.closed (h : w.Closing) (hheld : ∀ r, ¬ w.Held r) : w.Closed where
  tidy := h.tidy.congr fun r => ⟨False.elim, hheld r⟩
  logged := h.logged
  noAttach := h.noAttach

end World

namespace WatchChecked

variable {env : WatchScript R} {w : World R} {watch : Watch} {s : WatchState}

/-! ## The stages of the eBPF path -/

theorem post_openLoader (hmoves : w.moves = []) (hcreated : w.loader.created = [])
    (hattach : .attach ∉ w.log) :
    Post (openLoader env) w (fun _ w' => w'.Opening) fun _ w' => w'.Closed := by
  let w₀ : World R :=
    { w with loader := { w.loader with links := [] }, obj := false, ring := false }
  have hnone : ∀ r, ¬ w₀.Held r := World.not_held rfl rfl rfl
  have hcreated₀ : w₀.loader.created = [] := hcreated
  have hopening : w₀.Opening := by
    refine ⟨?_, ⟨hcreated.symm, ?_⟩, ?_, hattach⟩
    · change Fresh w₀.Held w.moves
      rw [hmoves]
      exact fresh_nil hnone
    · rw [hcreated₀]
      rfl
    · rw [World.Logged, hcreated₀]
      exact List.forall_mem_nil _
  have hobject : ({ w₀.acquire .object with obj := true } : World R).Opening :=
    hopening.acquire (hnone _) rfl rfl fun r => by
      cases r <;> simp [World.Held, World.acquire, World.act]
  simp only [openLoader, post_bind, post_modify, post_ite, post_pure, post_throw]
  refine ⟨fun _ => ⟨fun _ => hobject, fun _ => ?_⟩, fun _ => hopening.closing.closed hnone⟩
  have hreleased : ({ ({ w₀.acquire .object with obj := true } : World R).release .object with
      obj := false } : World R).Closing :=
    hobject.closing.release (r := .object) rfl rfl rfl fun r => by
      cases r <;> simp [World.Held, World.release, World.acquire, World.act]
  exact hreleased.closed (World.not_held rfl rfl rfl)

theorem post_attach (h : w.Opening) {sys : UprobeSystem} {funcAddress : Addr} :
    Post (attach sys funcAddress) w (fun _ w' => w'.Opening) fun _ w' => w'.Opening := by
  have hcreated : Post (UprobeLoader.attach sys funcAddress) w.loader
      (fun _ l => l.Keeps ∧ w.loader.created <+: l.created)
      fun _ l => l.Keeps ∧ w.loader.created <+: l.created :=
    UprobeLoader.post_attach_created h.keeps
  unfold Post at hcreated ⊢
  simp only [attach]
  split at hcreated
  next hrun => rw [hrun]; exact h.attached hcreated.1 hcreated.2
  next hrun => rw [hrun]; exact h.attached hcreated.1 hcreated.2

theorem post_attachAll (h : w.Opening) {sys : ℕ → UprobeSystem} {targets : List FuncInfo} :
    Post (attachAll sys targets) w (fun _ w' => w'.Opening) fun _ w' => w'.Opening := by
  induction targets generalizing w sys with
  | nil => exact h
  | cons fi targets ih =>
    rw [attachAll, post_bind]
    exact (post_attach h).mono (fun _ _ h => ih h) fun _ _ h => h

theorem post_poll (h : w.Opening) :
    Post (poll env) w (fun _ w' => w'.Opening) fun _ w' => w'.Opening := by
  have hpoll : (w.act .poll).Opening := h.act rfl (by decide)
  simp only [poll, post_bind, post_modify, post_get, post_ite, post_pure, post_throw]
  refine ⟨fun _ => hpoll, fun hring => ⟨fun _ => hpoll, fun _ => ⟨fun _ => hpoll, fun _ => ?_⟩⟩⟩
  refine hpoll.acquire (r := .ring) hring rfl rfl fun r => ?_
  cases r <;> simp [World.Held, World.acquire, World.act]

theorem post_pollLoop (h : w.Opening) {deadline : ℤ} {polls : List Watch.Poll} :
    Post (pollLoop env watch deadline polls s) w (fun _ w' => w'.Opening)
      fun _ w' => w'.Opening := by
  induction polls generalizing w s with
  | nil => exact h
  | cons p polls ih =>
    have htest : (w.act (.testFlag p.stopFlag)).Opening := h.act rfl (by simp)
    simp only [pollLoop, post_bind, post_modify, post_ite, post_pure]
    refine ⟨fun _ => h, fun _ => ⟨fun _ => htest, fun _ => ⟨fun _ => htest, fun _ => ?_⟩⟩⟩
    exact (post_poll htest).mono (fun _ _ h => ih h) fun _ _ h => h

/-- **The destructor** releases what is left. -/
theorem post_closeLoader (h : w.Closing) {E : Exception → World R → Prop} :
    Post closeLoader w (fun _ w' => w'.Closed) E := by
  have hdetached := h.detached
  have hring : ∀ {w : World R}, w.Closing → w.ring = true →
      ({ w.release .ring with ring := false } : World R).Closing := fun h hr =>
    h.release (r := .ring) hr rfl rfl fun r => by
      cases r <;> simp [World.Held, World.release, World.act]
  have hobject : ∀ {w : World R}, w.Closing → w.obj = true →
      ({ w.release .object with obj := false } : World R).Closing := fun h hr =>
    h.release (r := .object) hr rfl rfl fun r => by
      cases r <;> simp [World.Held, World.release, World.act]
  simp only [closeLoader, detachAll, post_bind, post_modify, post_get, post_ite, post_pure]
  refine ⟨fun hr => ⟨fun ho => ?_, fun ho => ?_⟩, fun hr => ⟨fun ho => ?_, fun ho => ?_⟩⟩
  · exact (hobject (hring hdetached hr) ho).closed (World.not_held rfl rfl rfl)
  · exact (hring hdetached hr).closed (World.not_held (Bool.eq_false_iff.2 ho) rfl rfl)
  · exact (hobject hdetached ho).closed (World.not_held rfl (Bool.eq_false_iff.2 hr) rfl)
  · exact hdetached.closed
      (World.not_held (Bool.eq_false_iff.2 ho) (Bool.eq_false_iff.2 hr) rfl)

/-- However the eBPF path ends, its loader is gone. -/
theorem post_ebpfWatch (hmoves : w.moves = []) (hcreated : w.loader.created = [])
    (hattach : .attach ∉ w.log) {timeoutMs : ℤ} :
    Post (ebpfWatch env watch timeoutMs) w (fun _ w' => w'.Closed)
      fun _ w' => w'.Closed := by
  rw [post_ebpfWatch_stages]
  refine (post_openLoader hmoves hcreated hattach).mono (fun _ w₁ hopen => ?_) fun _ _ h => h
  have hbody : Post (withLoader env watch timeoutMs) w₁ (fun _ w' => w'.Closing)
      fun _ w' => w'.Closing := by
    rw [withLoader, post_bind]
    refine (post_attachAll hopen).mono (fun _ w₂ hopen => ?_) fun _ _ h => h.closing
    rw [post_bind]
    refine (post_pollLoop hopen).mono (fun _ w₃ hopen => ?_) fun _ _ h => h.closing
    exact hopen.closing.detached
  refine hbody.mono (fun evs w₂ hclosing => ?_) fun e w₂ hclosing => ?_
  · exact post_closeLoader hclosing
  · exact post_closeLoader hclosing

/-! ## The fallback -/

/-- The fallback adds actions that have nothing to do with the loader. -/
def Untouched (w w' : World R) : Prop :=
  w'.loader = w.loader ∧ ∃ log, w'.log = w.log ++ log ∧ ∀ a ∈ log, a.move? = none

theorem Untouched.refl : Untouched w w := ⟨rfl, [], by simp, by simp⟩

theorem Untouched.trans {w₁ w₂ w₃ : World R} (h : Untouched w₁ w₂) (h' : Untouched w₂ w₃) :
    Untouched w₁ w₃ := by
  obtain ⟨hloader, log, hlog, hmove⟩ := h
  obtain ⟨hloader', log', hlog', hmove'⟩ := h'
  refine ⟨hloader'.trans hloader, log ++ log', by rw [hlog', hlog, List.append_assoc], ?_⟩
  intro a ha
  exact (List.mem_append.1 ha).elim (hmove a) (hmove' a)

theorem untouched_traced {A : Arch R} {impl : Impl} {funcName : Text} {count timeoutMs : ℤ}
    {script : Script R} {session : Session R TraceVars TraceNode} :
    Untouched w (traced A impl funcName count timeoutMs script session w) :=
  ⟨rfl, _, rfl, fun _ => Command.move?_actions⟩

theorem post_ptraceWatch {A : Arch R} {impl : Impl} {maxEvents timeoutMs : ℤ}
    {targets : List FuncInfo} {traces : ℕ → Script R} :
    Post (ptraceWatch A impl maxEvents timeoutMs targets traces) w
      (fun _ w' => Untouched w w') fun _ w' => Untouched w w' := by
  induction targets generalizing w traces with
  | nil => exact .refl
  | cons fi targets ih =>
    refine post_ptraceWatch_cons.2 ⟨fun nodes t _ => ?_, fun _ _ _ => untouched_traced⟩
    exact ih.mono (fun _ _ h => untouched_traced.trans h) fun _ _ h => untouched_traced.trans h

end WatchChecked

open WatchChecked

/-- The log up to the first `PTRACE_ATTACH`, and the life of a resource in it. -/
def World.lifeBeforeAttach (r : Resource) (w : World R) : List (Move Resource) :=
  life r ((w.log.takeWhile (· ≠ .attach)).filterMap Action.move?)

/-- The life of a resource in the whole log. -/
def World.lifeOf (r : Resource) (w : World R) : List (Move Resource) := life r w.moves

/-- The fallback adds nothing to the life of a resource, and attaches after the end of it. -/
theorem World.Closed.untouched {w w' : World R} (h : w.Closed)
    (hw : Untouched w w') (r : Resource) :
    w'.lifeOf r = life r w.moves ∧ w'.lifeBeforeAttach r = life r w.moves := by
  obtain ⟨-, log, hlog, hmove⟩ := hw
  have hnone : ∀ l ⊆ log, l.filterMap Action.move? = [] := fun l hl =>
    List.filterMap_eq_nil_iff.2 fun a ha => hmove a (hl ha)
  have hwhile : w'.log.takeWhile (· ≠ .attach) = w.log ++ log.takeWhile (· ≠ .attach) := by
    rw [hlog]
    refine List.takeWhile_append_of_pos fun a ha => ?_
    have hne : a ≠ .attach := fun heq => h.noAttach (heq ▸ ha)
    simpa using hne
  constructor
  · rw [World.lifeOf, World.moves, hlog, List.filterMap_append, hnone _ (List.Subset.refl _),
      List.append_nil]
    rfl
  · rw [World.lifeBeforeAttach, hwhile, List.filterMap_append,
      hnone _ (List.takeWhile_prefix _).subset, List.append_nil]
    rfl

/-- Where the command ends, the loader has been closed, and the fallback may have run. -/
theorem post_watchChecked_closed {A : Arch R} {impl : Impl} {regex : RegexEngine}
    {funcName : Text} {maxEvents timeoutMs : ℤ} {env : WatchScript R} {pid : ℤ}
    {session : Session R TraceVars TraceNode} :
    Post (watchChecked A impl regex funcName maxEvents timeoutMs env) (World.init pid session)
      (fun _ w' => ∃ w : World R, w.Closed ∧ Untouched w w')
      fun _ w' => ∃ w : World R, w.Closed ∧ Untouched w w' := by
  have hclosed : ((World.init pid session).act .clearFlag).Closed :=
    ⟨fun r => ⟨False.elim, fun _ => .inl rfl⟩, List.forall_mem_nil _,
      by simp [World.act, World.init]⟩
  have hfallback : ∀ {targets : List FuncInfo} {w : World R}, w.Closed →
      Post (ptraceWatch A impl maxEvents timeoutMs targets env.traces) w
        (fun _ w' => ∃ w : World R, w.Closed ∧ Untouched w w')
        fun _ w' => ∃ w : World R, w.Closed ∧ Untouched w w' := fun h =>
    post_ptraceWatch.mono (fun _ _ h' => ⟨_, h, h'⟩) fun _ _ h' => ⟨_, h, h'⟩
  rw [watchChecked, post_bind, post_modify]
  split
  · exact ⟨_, hclosed, .refl⟩
  next targets _ =>
    simp only [post_bind, post_pure, watchTargets, post_ite, post_throw, post_tryCatch]
    refine ⟨fun _ => hfallback hclosed, fun _ => ⟨fun _ => ⟨_, hclosed, .refl⟩, fun _ => ?_⟩⟩
    exact (post_ebpfWatch rfl rfl hclosed.noAttach).mono (fun _ _ h => ⟨_, h, .refl⟩)
      fun _ _ h => hfallback h

/-- A link that was created has been acquired, whatever the fallback does. -/
theorem World.Closed.acquire_mem {w w' : World R} (h : w.Closed) (hw : Untouched w w')
    {link : BpfLink} (hlink : link ∈ w'.loader.created) :
    .acquire (.link link.id) ∈ w'.lifeOf (.link link.id) := by
  have hlife : w'.lifeOf (.link link.id) = life (.link link.id) w.moves := (h.untouched hw _).1
  rw [hw.1] at hlink
  rw [hlife]
  exact List.mem_filter.2 ⟨h.logged link hlink, by simp [Move.resource]⟩

/-- **Every resource is released exactly once** by the time `watch_checked` returns, throws or
attaches to the process: it was never acquired, or acquired and then released; and every link that
was created was acquired. -/
theorem resources_released (A : Arch R) (impl : Impl) (regex : RegexEngine) (funcName : Text)
    (maxEvents timeoutMs : ℤ) (env : WatchScript R) (pid : ℤ)
    (session : Session R TraceVars TraceNode) :
    let w := finalState (watchChecked A impl regex funcName maxEvents timeoutMs env)
      (World.init pid session)
    (∀ r : Resource, w.lifeOf r = w.lifeBeforeAttach r ∧
      (w.lifeOf r = [] ∨ w.lifeOf r = [.acquire r, .release r])) ∧
    ∀ link ∈ w.loader.created, w.lifeBeforeAttach (.link link.id) =
      [.acquire (.link link.id), .release (.link link.id)] := by
  intro w
  obtain ⟨w₀, hclosed, huntouched⟩ : ∃ w₀ : World R, w₀.Closed ∧ Untouched w₀ w :=
    post_finalState.1 post_watchChecked_closed
  have hall : ∀ r : Resource, w.lifeOf r = w.lifeBeforeAttach r ∧
      (w.lifeOf r = [] ∨ w.lifeOf r = [.acquire r, .release r]) := by
    intro r
    obtain ⟨hlife, hbefore⟩ := hclosed.untouched huntouched r
    refine ⟨hlife.trans hbefore.symm, ?_⟩
    rw [hlife]
    exact (hclosed.tidy r).2 not_false
  refine ⟨hall, fun link hlink => ?_⟩
  obtain ⟨hbefore, hlife⟩ := hall (.link link.id)
  have hacquire := hclosed.acquire_mem huntouched hlink
  rw [← hbefore]
  refine hlife.resolve_left fun hnil => ?_
  rw [hnil] at hacquire
  cases hacquire

end Uatu
