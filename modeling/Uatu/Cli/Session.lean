import Uatu.Cli.Formatter
import Uatu.Cli.Repl
import Uatu.Engine.Leftovers

/-!
# A session

The read loop of `main` with the engine in it: a process that goes on between the commands, and the
commands, which print what they return. Whatever the input, the process is left alone by every
command, or by all before one that leaves it attached; from then on the engine does nothing to it
and samples nothing (`session_leaves`).
-/

namespace Uatu

open ByteMemory Throwing

variable {R V ν : Type}

namespace Tracee

/-- What a process does between two commands. One that is not traced does not stop for signals. -/
def elapse (b : Behaviour R) (t : Tracee R) : Tracee R :=
  if t.traced then t.advance b
  else
    match t.status with
    | .running sig =>
      { t with
        mem := (b sig t.mem t.regs).mem
        regs := (b sig t.mem t.regs).regs
        status := if (b sig t.mem t.regs).stop = none then .exited else .running 0 }
    | _ => t

variable {b : Behaviour R} {t : Tracee R}

@[simp] theorem elapse_traced : (t.elapse b).traced = t.traced := by
  unfold elapse
  split_ifs
  · exact t.advance_traced b
  · split <;> rfl

theorem elapse_mem {x : Addr} (hb : b.Keeps x) : (t.elapse b).mem x = t.mem x := by
  unfold elapse
  split_ifs
  · exact t.advance_mem hb
  · split
    · exact hb _ _ _
    · rfl

theorem Free.elapse (h : t.Free) (b : Behaviour R) : (t.elapse b).Free := by
  refine ⟨elapse_traced.trans h.traced, ?_⟩
  have hstopped := h.stopped
  unfold Tracee.elapse
  rw [if_neg (by simp [h.traced])]
  split
  · unfold isStopped
    split_ifs <;> exact not_false
  · exact hstopped

end Tracee

/-- A command that is about to start on a process. -/
def Session.start [Inhabited V] (t : Tracee R) : Session R V ν where
  tracee := t
  fault := Fault.none
  issued := 0
  needCont := true
  results := []
  vars := default

/-- A process that is traced already cannot be attached to. -/
def Script.attachTo (t : Tracee R) (env : Script R) : Script R :=
  if t.traced then { env with attachError := some "Operation not permitted".toList } else env

def WatchScript.attachTo (t : Tracee R) (env : WatchScript R) : WatchScript R :=
  { env with traces := fun i => (env.traces i).attachTo t }

/-- What the process does before a command, and what the environment answers during it. -/
structure CommandScript (R : Type) where
  before : Behaviour R
  watch : WatchScript R
  sampling : Script R

/-- The process, and what the environment answers during the commands to come. -/
structure Process (R : Type) where
  tracee : Tracee R
  env : ℕ → CommandScript R

namespace Process

variable (p : Process R)

/-- The process when the next command starts. -/
def now : Tracee R := p.tracee.elapse (p.env 0).before

/-- The process after a command that has left it in this state. -/
def next (t : Tracee R) : Process R := ⟨t, fun i => p.env (i + 1)⟩

/-- A sampling command: each sample is printed as the text that is made of it. -/
def sample [Inhabited V] (command : Text → ℤ → ℤ → Script R → Engine R V ν (List ν))
    (format : ν → Text) : EngineCommand (Process R) := fun funcName count timeoutMs p =>
  match command funcName count timeoutMs ((p.env 0).sampling.attachTo p.now) (.start p.now) with
  | .ok samples s => (.ok (samples.map format), p.next s.tracee)
  | .error e s => (.error e.what, p.next s.tracee)

/-- `watch_checked`: an `EngineError` is printed like an exception. -/
def watch (A : Arch R) (impl : Impl) (regex : RegexEngine) (pid : ℤ) :
    EngineCommand (Process R) := fun funcName count timeoutMs p =>
  match watchChecked A impl regex funcName count timeoutMs ((p.env 0).watch.attachTo p.now)
    (World.init pid (.start p.now)) with
  | .ok (.ok evs) w => (.ok (evs.map formatWatchEvent), p.next w.session.tracee)
  | .ok (.error e) w => (.error e.message, p.next w.session.tracee)
  | .error e w => (.error e.what, p.next w.session.tracee)

end Process

/-- `AttachEngine`, as `main` uses it. -/
def attachEngine (A : Arch R) (impl : Impl) (regex : RegexEngine) (pid : ℤ) :
    EngineCommands (Process R) where
  watch := Process.watch A impl regex pid
  trace := Process.sample (trace A impl) (formatTraceNode · 0)
  stack := Process.sample (stack A impl) formatStackEvent

/-! ## One line -/

namespace Repl

variable {σ : Type} {engine : EngineCommands σ}

/-- The state of the engine after these lines. -/
def after (engine : EngineCommands σ) (lines : List Text) (r : Repl σ) : σ :=
  (loop engine lines r).2.engine

/-- What a line can do to the engine: nothing, or a command. -/
inductive Step (engine : EngineCommands σ) : σ → σ → Prop
  | idle (s) : Step engine s s
  | watch (funcName count timeoutMs s) : Step engine s (engine.watch funcName count timeoutMs s).2
  | trace (funcName count timeoutMs s) : Step engine s (engine.trace funcName count timeoutMs s).2
  | stack (funcName count timeoutMs s) : Step engine s (engine.stack funcName count timeoutMs s).2

theorem step_dispatch (cmd funcName : Text) (count timeoutMs : ℤ) (r : Repl σ) :
    Step engine r.engine (dispatch engine cmd funcName count timeoutMs r).engine := by
  have hprint : ∀ (r : Repl σ) lines, (r.print lines).engine = r.engine := fun _ _ => rfl
  unfold dispatch
  split_ifs
  · have hstep : Step engine r.engine _ := .watch funcName count timeoutMs r.engine
    dsimp only
    split <;> simpa only [hprint, *] using hstep
  · have hstep : Step engine r.engine _ := .trace funcName count timeoutMs r.engine
    dsimp only
    split <;> simpa only [hprint, *] using hstep
  · have hstep : Step engine r.engine _ := .stack funcName count timeoutMs r.engine
    dsimp only
    split <;> simpa only [hprint, *] using hstep
  · exact .idle _

theorem step_handle (line : Text) (r : Repl σ) :
    Step engine r.engine (handle engine line r).2.engine := by
  unfold handle
  split_ifs
  · exact .idle _
  generalize parseLine line = tokens
  rcases tokens with _ | ⟨cmd, _ | ⟨funcName, numbers⟩⟩
  · exact .idle _
  · dsimp only
    split_ifs <;> exact .idle _
  · dsimp only
    split_ifs
    · exact .idle _
    · exact .idle _
    · rcases numberOr 3 numbers[0]? with e | count
      · exact .idle _
      rcases numberOr 3000 numbers[1]? with e | timeoutMs
      · exact .idle _
      · exact step_dispatch cmd funcName count timeoutMs r

theorem after_cons (line : Text) (lines : List Text) (r : Repl σ) :
    after engine (line :: lines) r =
      if (handle engine line (r.print ["uatu> ".toList])).1 = none then
        after engine lines (handle engine line (r.print ["uatu> ".toList])).2
      else (handle engine line (r.print ["uatu> ".toList])).2.engine := by
  rw [after, loop]
  rcases handle engine line (r.print ["uatu> ".toList]) with ⟨_ | e, r'⟩
  · rfl
  · rfl

/-- One more line. -/
theorem step_after (lines : List Text) (line : Text) (r : Repl σ) :
    Step engine (after engine lines r) (after engine (lines ++ [line]) r) := by
  induction lines generalizing r with
  | nil =>
    have hstep : Step engine _ _ := step_handle line (r.print ["uatu> ".toList])
    rw [List.nil_append, after_cons]
    split_ifs <;> exact hstep
  | cons first lines ih =>
    rw [List.cons_append, after_cons, after_cons]
    split_ifs
    · exact ih _
    · exact .idle _

end Repl

/-! ## Any lines -/

theorem Tracee.Free.attachTo {t : Tracee R} (h : t.Free) (env : Script R) :
    env.attachTo t = env :=
  if_neg (by simp [h.traced])

theorem Script.attachTo_refused {t : Tracee R} (h : t.traced = true) (env : Script R) :
    (env.attachTo t).attachError = some "Operation not permitted".toList := by
  rw [Script.attachTo, if_pos h]

/-- During a command, and before it, requests fail for no reason other than the state of the
process, and the process itself does not write these bytes. -/
structure CommandScript.Spares (e : CommandScript R) (K : Addr → Prop) : Prop where
  before : ∀ x, K x → e.before.Keeps x
  sampling : e.sampling.FaultFree ∧ e.sampling.Spares K
  watch : ∀ i, (e.watch.traces i).FaultFree ∧ (e.watch.traces i).Spares K

namespace Process

variable {A : Arch R} {impl : Impl} {regex : RegexEngine} {pid : ℤ} {K : Addr → Prop}
  {p q : Process R} {funcName : Text} {count timeoutMs : ℤ}

/-- The process that a command leaves is that of its session. -/
theorem sample_of_post [Inhabited V] {command : Text → ℤ → ℤ → Script R → Engine R V ν (List ν)}
    {format : ν → Text} {P : Tracee R → Prop}
    (h : Post (command funcName count timeoutMs ((p.env 0).sampling.attachTo p.now))
      (.start p.now) (fun _ t => P t.tracee) fun _ t => P t.tracee) :
    ∃ t, (sample command format funcName count timeoutMs p).2 = p.next t ∧ P t := by
  unfold sample
  cases hrun : command funcName count timeoutMs ((p.env 0).sampling.attachTo p.now)
      (.start p.now) with
  | ok samples s => exact ⟨_, rfl, h.ok hrun⟩
  | error e s => exact ⟨_, rfl, h.error hrun⟩

theorem watch_of_post {P : Tracee R → Prop}
    (h : Post (watchChecked A impl regex funcName count timeoutMs ((p.env 0).watch.attachTo p.now))
      (World.init pid (.start p.now)) (fun _ u => P u.session.tracee)
      fun _ u => P u.session.tracee) :
    ∃ t, (watch A impl regex pid funcName count timeoutMs p).2 = p.next t ∧ P t := by
  unfold watch
  cases hrun : watchChecked A impl regex funcName count timeoutMs
      ((p.env 0).watch.attachTo p.now) (World.init pid (.start p.now)) with
  | ok result u =>
    cases result with
    | ok evs => exact ⟨_, rfl, h.ok hrun⟩
    | error e => exact ⟨_, rfl, h.ok hrun⟩
  | error e u => exact ⟨_, rfl, h.error hrun⟩

/-- The commands to come do no harm of their own. -/
def Spares (p : Process R) (K : Addr → Prop) : Prop := ∀ i, (p.env i).Spares K

theorem Spares.next (h : p.Spares K) (t : Tracee R) : (p.next t).Spares K := fun i => h (i + 1)

theorem leftAlone_now (hs : p.tracee.Free) (hK : p.Spares K) : p.tracee.LeftAlone K p.now :=
  ⟨hs.elapse _, fun x hx => Tracee.elapse_mem ((hK 0).before x hx)⟩

/-- A command leaves the process alone or attached. -/
theorem leaves_of_step (hs : p.tracee.Free) (hK : p.Spares K)
    (h : Repl.Step (attachEngine A impl regex pid) p q) :
    p.tracee.Leaves K q.tracee ∧ q.Spares K := by
  have halone := leftAlone_now hs hK
  have hfree := halone.free
  have hnext : (∃ t, q = p.next t ∧ p.now.Leaves K t) →
      p.tracee.Leaves K q.tracee ∧ q.Spares K := by
    rintro ⟨t, rfl, ht⟩
    exact ⟨halone.trans_leaves ht, hK.next t⟩
  cases h with
  | idle => exact ⟨.inr (.refl hs), hK⟩
  | watch funcName count timeoutMs =>
    refine hnext (watch_of_post ?_)
    have htraces : ∀ i, ((p.env 0).watch.attachTo p.now).traces i = (p.env 0).watch.traces i :=
      fun i => hfree.attachTo _
    exact WatchChecked.post_watchChecked_leaves (fun i => htraces i ▸ ((hK 0).watch i).1) hfree
      fun i => htraces i ▸ ((hK 0).watch i).2
  | trace funcName count timeoutMs =>
    refine hnext (sample_of_post ?_)
    rw [hfree.attachTo]
    exact (post_trace_leaves (hK 0).sampling.1 hfree (hK 0).sampling.2).mono
      (fun _ _ h => .inr h) fun _ _ h => h
  | stack funcName count timeoutMs =>
    refine hnext (sample_of_post ?_)
    rw [hfree.attachTo]
    exact post_stack_leaves (hK 0).sampling.1 hfree (hK 0).sampling.2

/-- A process that has been left attached stays so, with its bytes, and is not sampled. -/
structure Stuck (A : Arch R) (impl : Impl) (K : Addr → Prop) (p q : Process R) : Prop where
  traced : q.tracee.traced = true
  mem : ∀ x, K x → q.tracee.mem x = p.tracee.mem x
  trace : ∀ funcName count timeoutMs, ∃ text,
    (sample (Uatu.trace A impl) (formatTraceNode · 0) funcName count timeoutMs q).1 = .error text
  stack : ∀ funcName count timeoutMs, ∃ text,
    (sample (Uatu.stack A impl) formatStackEvent funcName count timeoutMs q).1 = .error text

/-- A command that throws prints an error. -/
theorem error_of_post [Inhabited V] {command : Text → ℤ → ℤ → Script R → Engine R V ν (List ν)}
    {format : ν → Text} {E : Exception → Session R V ν → Prop}
    (h : Post (command funcName count timeoutMs ((p.env 0).sampling.attachTo p.now))
      (.start p.now) (fun _ _ => False) E) :
    ∃ text, (sample command format funcName count timeoutMs p).1 = .error text := by
  unfold sample
  cases hrun : command funcName count timeoutMs ((p.env 0).sampling.attachTo p.now)
      (.start p.now) with
  | ok samples s => exact (h.ok hrun).elim
  | error e s => exact ⟨_, rfl⟩

theorem stuck_of_traced (h : q.tracee.traced = true)
    (hmem : ∀ x, K x → q.tracee.mem x = p.tracee.mem x) : Stuck A impl K p q := by
  have hrefused := Script.attachTo_refused (t := q.now) (by simpa [now] using h) (q.env 0).sampling
  exact ⟨h, hmem, fun _ _ _ => error_of_post (Command.post_run_refused hrefused),
    fun _ _ _ => error_of_post (Command.post_run_refused hrefused)⟩

theorem stuck_of_step {p₀ : Process R} (h : Stuck A impl K p₀ p) (hK : p.Spares K)
    (hstep : Repl.Step (attachEngine A impl regex pid) p q) :
    Stuck A impl K p₀ q ∧ q.Spares K := by
  have htraced : p.now.traced = true := by simpa [now] using h.traced
  have hrefused := Script.attachTo_refused htraced
  have hnext : (∃ t, q = p.next t ∧ t = p.now) → Stuck A impl K p₀ q ∧ q.Spares K := by
    rintro ⟨t, rfl, rfl⟩
    refine ⟨stuck_of_traced htraced fun x hx => ?_, hK.next _⟩
    exact (Tracee.elapse_mem ((hK 0).before x hx)).trans (h.mem x hx)
  cases hstep with
  | idle => exact ⟨h, hK⟩
  | watch funcName count timeoutMs =>
    exact hnext (watch_of_post (WatchChecked.post_watchChecked_refused fun i => hrefused _))
  | trace funcName count timeoutMs =>
    exact hnext (sample_of_post ((Command.post_run_refused (hrefused _)).mono
      (fun _ _ h => h.elim) fun _ _ h => h))
  | stack funcName count timeoutMs =>
    exact hnext (sample_of_post ((Command.post_run_refused (hrefused _)).mono
      (fun _ _ h => h.elim) fun _ _ h => h))

/-- The process after these lines. -/
def after (A : Arch R) (impl : Impl) (regex : RegexEngine) (pid : ℤ) (p : Process R)
    (lines : List Text) : Process R :=
  Repl.after (attachEngine A impl regex pid) lines ⟨p, []⟩

/-- A line of the input leaves the process attached: up to it the process is left alone, and from
then on it is stuck. -/
structure Sticks (A : Arch R) (impl : Impl) (regex : RegexEngine) (pid : ℤ) (K : Addr → Prop)
    (p : Process R) (pre : List Text) (line : Text) (post : List Text) : Prop where
  leftAlone : p.tracee.LeftAlone K (after A impl regex pid p pre).tracee
  stuck : ∀ post', post' <+: post → Stuck A impl K (after A impl regex pid p (pre ++ [line]))
    (after A impl regex pid p (pre ++ line :: post'))

theorem Sticks.concat {pre post : List Text} {line last : Text}
    (h : Sticks A impl regex pid K p pre line post)
    (hK : (after A impl regex pid p (pre ++ line :: post)).Spares K) :
    Sticks A impl regex pid K p pre line (post ++ [last]) := by
  refine ⟨h.leftAlone, fun post' hpost => ?_⟩
  rcases List.prefix_concat_iff.1 hpost with rfl | hpost
  · have hstep : Repl.Step (attachEngine A impl regex pid) _ _ :=
      Repl.step_after (pre ++ line :: post) last ⟨p, []⟩
    rw [List.append_assoc, List.cons_append] at hstep
    exact (stuck_of_step (h.stuck post List.prefix_rfl) hK hstep).1
  · exact h.stuck post' hpost

theorem leftAlone_or_sticks (hs : p.tracee.Free) (hK : p.Spares K) (lines : List Text) :
    (after A impl regex pid p lines).Spares K ∧
      (p.tracee.LeftAlone K (after A impl regex pid p lines).tracee ∨
        ∃ pre line post, lines = pre ++ line :: post ∧
          Sticks A impl regex pid K p pre line post) := by
  induction lines using List.reverseRecOn with
  | nil => exact ⟨hK, .inl (.refl hs)⟩
  | append_singleton lines last ih =>
    have hstep : Repl.Step _ (after A impl regex pid p lines)
        (after A impl regex pid p (lines ++ [last])) := Repl.step_after lines last ⟨p, []⟩
    obtain ⟨hspares, halone | ⟨pre, line, post, rfl, hsticks⟩⟩ := ih
    · obtain ⟨hleaves, hnext⟩ := leaves_of_step halone.free hspares hstep
      refine ⟨hnext, ?_⟩
      obtain htraced | halone' := hleaves
      · refine .inr ⟨lines, last, [], rfl, halone, fun post' hpost => ?_⟩
        rw [List.prefix_nil.1 hpost]
        exact stuck_of_traced htraced fun _ _ => rfl
      · exact .inl (halone.trans halone')
    · have hnext := (stuck_of_step (hsticks.stuck post List.prefix_rfl) hspares hstep).2
      refine ⟨hnext, .inr ⟨pre, line, post ++ [last], ?_, hsticks.concat hspares⟩⟩
      rw [List.append_assoc, List.cons_append]

end Process

open Process in
/-- **What a session does to the process.** Whatever the lines of the input, the process is left
alone at the end, nobody tracing it and its bytes as they were, or there is a line that has left it
attached: up to that line it was left alone, and from then on it stays attached, its bytes as that
line left them, and every `trace` and `stack` ends with an error. -/
theorem session_leaves {A : Arch R} {impl : Impl} {regex : RegexEngine} {pid : ℤ}
    {K : Addr → Prop} {p : Process R} (hs : p.tracee.Free) (hK : p.Spares K)
    (lines : List Text) :
    p.tracee.LeftAlone K (after A impl regex pid p lines).tracee ∨
      ∃ pre line post, lines = pre ++ line :: post ∧ Sticks A impl regex pid K p pre line post :=
  (leftAlone_or_sticks hs hK lines).2

/-- During every command of this session the deadline passes between a `PTRACE_CONT` and the
wait. -/
def Process.late : Process X86Regs where
  tracee := ⟨Mem.single, X86Regs.single, .running 0, false, false, [], []⟩
  env _ :=
    { before := .stop (.signal 0)
      watch := .noEbpf false fun _ => .sampling []
      sampling := .sampling [{ Round.polling [] with now2 := 1000000 }] }

theorem Process.spares_late : Process.late.Spares fun x => ¬ InWord 0 x := by
  have hkeeps : ∀ rounds : List (Round X86Regs), (∀ r ∈ rounds, r.polls = []) → ∀ x,
      (Script.sampling rounds).Keeps x := by
    intro rounds hrounds x b hb
    simp only [Script.behaviours, Script.sampling, List.mem_append, List.mem_flatMap,
      Option.toList_none, List.not_mem_nil, or_false] at hb
    obtain hb | ⟨r, hr, hb⟩ := hb
    · rw [List.mem_singleton.1 hb]
      exact fun _ _ _ => rfl
    · rw [hrounds r hr] at hb
      cases hb
  have hfree : ∀ rounds : List (Round X86Regs), (∀ r ∈ rounds, r.contFault = Fault.none) →
      (∀ r ∈ rounds, r.hitFault = Fault.none) → (Script.sampling rounds).FaultFree :=
    fun rounds hcont hhit => ⟨rfl, rfl, hcont, hhit, rfl, rfl⟩
  intro i
  refine ⟨fun _ _ _ _ _ => rfl, ⟨hfree _ ?_ ?_, fun x hx => ⟨hkeeps _ ?_ x, hx⟩⟩,
    fun _ => ⟨hfree _ ?_ ?_, fun x hx => ⟨hkeeps _ ?_ x, hx⟩⟩⟩
  all_goals simp [Round.polling]

theorem session_leaves_late : ∃ pre line post,
    ["trace f 1 1".toList, "stack f 1 1".toList] = pre ++ line :: post ∧
      Process.Sticks x86_64 Impl.single .none 1 (fun x => ¬ InWord 0 x) .late pre line post := by
  have hfree : Process.late.tracee.Free := ⟨rfl, Bool.false_ne_true⟩
  refine (session_leaves hfree Process.spares_late _).resolve_left fun h => ?_
  exact absurd h.free.traced (by decide +kernel)

end Uatu
