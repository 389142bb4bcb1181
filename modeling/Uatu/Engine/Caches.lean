import Uatu.Engine.Files
import Uatu.Foundations.Lazy

/-!
# The caches of the engine

`AttachEngine::Impl` computes the symbols of the executable, its link-time base and its load address
when they are first asked for, and never again. The process, its files and its mappings may change
between two commands. Whatever they do, the symbols are those of the first time they could be read,
and the slide is that of the first time it was asked for (`answer_after`).
-/

namespace Uatu

open LazyCell

/-- What there is to read at one moment. -/
structure Surroundings where
  /-- The symbols of the executable, or what the constructor of `SymbolFinder` throws. -/
  finder : Except Text SymbolFinder
  /-- The bytes of the executable, if it opens. -/
  exe : Option (List LittleEndian.Byte)
  /-- The text of `/proc/<pid>/maps`. -/
  maps : Text

/-- The caches of `AttachEngine::Impl`. -/
structure Caches where
  finder : Option SymbolFinder
  elfMinVaddr : Option Addr
  mapsBase : Option Addr

/-- What the commands ask for. -/
inductive Query
  | finder
  | slide
  deriving DecidableEq

inductive Answer
  | finder (result : Except Text SymbolFinder)
  | slide (value : Word)

namespace Caches

def empty : Caches := ⟨none, none, none⟩

/-- `get_finder`. -/
def getFinder (now : Surroundings) (c : Caches) : Except Text SymbolFinder × Caches :=
  (ask now.finder c.finder, { c with finder := fill now.finder c.finder })

/-- `get_aslr_slide`. -/
def getAslrSlide (exePath : Text) (now : Surroundings) (c : Caches) : Word × Caches :=
  let elfMinVaddr := c.elfMinVaddr.getD (elfMinVaddrBytes now.exe)
  let mapsBase := c.mapsBase.getD (getLoadBaseText now.maps exePath)
  (mapsBase - elfMinVaddr, { c with elfMinVaddr := some elfMinVaddr, mapsBase := some mapsBase })

/-- One of the two, at some moment. -/
def call (exePath : Text) (c : Caches) : Query × Surroundings → Answer × Caches
  | (.finder, now) => Prod.map Answer.finder id (c.getFinder now)
  | (.slide, now) => Prod.map Answer.slide id (c.getAslrSlide exePath now)

/-- The caches after a sequence of calls. -/
def after (exePath : Text) (calls : List (Query × Surroundings)) : Caches :=
  calls.foldl (fun c q => (c.call exePath q).2) empty

/-! ## What is in the caches -/

/-- The attempts to read the symbols. -/
def attempts (calls : List (Query × Surroundings)) : List (Except Text SymbolFinder) :=
  (calls.filter (·.1 = .finder)).map (·.2.finder)

/-- The first time that the slide is asked for. -/
def firstSlide (calls : List (Query × Surroundings)) : Option Surroundings :=
  (calls.find? (·.1 = .slide)).map Prod.snd

section Concat

variable (calls : List (Query × Surroundings)) (now : Surroundings)

@[simp] theorem attempts_finder :
    attempts (calls ++ [(.finder, now)]) = attempts calls ++ [now.finder] := by
  simp [attempts]

@[simp] theorem attempts_slide : attempts (calls ++ [(.slide, now)]) = attempts calls := by
  simp [attempts]

@[simp] theorem firstSlide_finder :
    firstSlide (calls ++ [(.finder, now)]) = firstSlide calls := by
  simp [firstSlide]

@[simp] theorem firstSlide_slide :
    firstSlide (calls ++ [(.slide, now)]) = some ((firstSlide calls).getD now) := by
  rw [firstSlide, List.find?_append, firstSlide]
  cases calls.find? (·.1 = .slide) <;> rfl

end Concat

/-- The caches hold what was read first. -/
theorem after_eq (exePath : Text) (calls : List (Query × Surroundings)) :
    after exePath calls = {
      finder := firstOk (attempts calls)
      elfMinVaddr := (firstSlide calls).map fun now => elfMinVaddrBytes now.exe
      mapsBase := (firstSlide calls).map fun now => getLoadBaseText now.maps exePath } := by
  induction calls using List.reverseRecOn with
  | nil => rfl
  | append_singleton calls q ih =>
    obtain ⟨q, now⟩ := q
    rw [after, List.foldl_append, ← after, ih]
    cases q with
    | finder =>
      rw [attempts_finder, firstOk_concat, firstSlide_finder]
      rfl
    | slide =>
      rw [attempts_slide, firstSlide_slide]
      cases firstSlide calls <;> rfl

/-! ## Against the engine that reads everything each time -/

/-- The process shows this to the engine. -/
structure Shows (exePath : Text) (now : Surroundings) (impl : Impl) : Prop where
  path : impl.exePath = exePath
  finder : impl.finder = now.finder
  exe : impl.elf = ElfFile.ofBytes now.exe
  maps : ∃ entries : List MapsEntry, now.maps = printMaps entries ∧
    impl.maps = entries.map (·.toMapsLine)

theorem Shows.slide_eq {exePath : Text} {now : Surroundings} {impl : Impl}
    (h : Shows exePath now impl) (habs : exePath.head? = some '/') :
    aslrSlideOf now.exe now.maps exePath = impl.getAslrSlide := by
  obtain ⟨entries, hnow, himpl⟩ := h.maps
  have hslide := aslrSlideOf_eq (h.path ▸ habs) h.exe himpl
  rwa [← hnow, h.path] at hslide

/-- The answer by what was there to read first. -/
def firstAnswer (impl : Surroundings → Impl) (calls : List (Query × Surroundings))
    (now : Surroundings) : Query → Answer
  | .finder => .finder (ask (impl now).finder
      (firstOk ((calls.filter (·.1 = .finder)).map fun c => (impl c.2).finder)))
  | .slide => .slide (impl ((firstSlide calls).getD now)).getAslrSlide

/-- **The engine answers by what it read first.** Whatever the process has become between the
calls, the symbols are those of the first call that could read them, or the call fails as reading
them fails now; and the slide is the one of the first call that asked for it. -/
theorem answer_after {exePath : Text} (habs : exePath.head? = some '/')
    (impl : Surroundings → Impl) (calls : List (Query × Surroundings)) (q : Query)
    (now : Surroundings) (hshows : ∀ c ∈ calls ++ [(q, now)], Shows exePath c.2 (impl c.2)) :
    ((after exePath calls).call exePath (q, now)).1 = firstAnswer impl calls now q := by
  rw [after_eq]
  cases q with
  | finder =>
    have hattempts : attempts calls =
        (calls.filter (·.1 = .finder)).map fun c => (impl c.2).finder := by
      refine List.map_congr_left fun c hc => ?_
      exact ((hshows c (List.mem_append_left _ (List.mem_of_mem_filter hc))).finder).symm
    have hnow :=
      (hshows (.finder, now) (List.mem_append_right _ (List.mem_singleton_self _))).finder
    rw [firstAnswer, ← hattempts, hnow]
    rfl
  | slide =>
    rw [firstAnswer]
    cases hfirst : firstSlide calls with
    | none =>
      have hnow := hshows (.slide, now) (List.mem_append_right _ (List.mem_singleton_self _))
      exact congrArg Answer.slide (hnow.slide_eq habs)
    | some first =>
      obtain ⟨c, hc, rfl⟩ := Option.map_eq_some_iff.1 hfirst
      have hfirst := hshows c (List.mem_append_left _ (List.mem_of_find?_eq_some hc))
      exact congrArg Answer.slide (hfirst.slide_eq habs)

end Caches

/-! ## A program that has moved -/

/-- The program is loaded at this address. -/
def Surroundings.app (start : Addr) : Surroundings where
  finder := .error "stripped".toList
  exe := none
  maps := printMaps [.app start]

/-- What there is to read of it. -/
def Impl.reading (now : Surroundings) : Impl where
  exePath := "/bin/app".toList
  finder := now.finder
  elf := ElfFile.ofBytes now.exe
  maps := if now.maps = printMaps [.app 0x400000] then [(MapsEntry.app 0x400000).toMapsLine]
    else [(MapsEntry.app 0x500000).toMapsLine]

theorem shows_app {start : Addr} (h : start = 0x400000 ∨ start = 0x500000) :
    Caches.Shows "/bin/app".toList (.app start) (Impl.reading (.app start)) := by
  refine ⟨rfl, rfl, rfl, [.app start], rfl, ?_⟩
  rcases h with rfl | rfl <;> decide

/-- The slide stays the first one. -/
theorem answer_after_moved :
    ((Caches.after "/bin/app".toList [(.finder, .app 0x400000), (.slide, .app 0x400000)]).call
      "/bin/app".toList (.slide, .app 0x500000)).1 = .slide 0x400000 := by
  have hshows : ∀ c ∈ [(Query.finder, Surroundings.app 0x400000), (.slide, .app 0x400000)] ++
      [(Query.slide, Surroundings.app 0x500000)],
      Caches.Shows "/bin/app".toList c.2 (Impl.reading c.2) := by
    intro c hc
    simp only [List.cons_append, List.nil_append, List.mem_cons, List.not_mem_nil, or_false] at hc
    rcases hc with rfl | rfl | rfl
    · exact shows_app (.inl rfl)
    · exact shows_app (.inl rfl)
    · exact shows_app (.inr rfl)
  have hslide : (Impl.reading (.app 0x400000)).getAslrSlide = 0x400000 := by decide
  rw [Caches.answer_after rfl Impl.reading _ _ _ hshows, ← hslide]
  rfl

end Uatu
