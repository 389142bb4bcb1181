import Uatu.Cli.Repl
import Uatu.Elf.Image
import Uatu.Engine.Format
import Uatu.Foundations.Hexadecimal
import Mathlib.Data.List.TakeWhile

/-!
# The text of `/proc/<pid>/maps`

`get_load_base` of `src/engine/attach_engine.cpp` as it reads the text: `std::getline`,
`std::string::find` and `sscanf`. On what the kernel prints it is the function of `Elf/Image` on the
lines that were printed (`getLoadBaseText_eq`).
-/

namespace Uatu

open Hexadecimal

/-! ## `sscanf` -/

/-- `%lx`: the value of `strtoul` and what follows it. glibc reads a prefix without digits as
`0`. -/
def scanHex (s : Text) : Option (Word × Text) :=
  let (sign, s) := splitSign (s.dropWhile isSpace)
  let based : Bool := ['0', 'x'] <+: s ∨ ['0', 'X'] <+: s
  let s := if based then s.drop 2 else s
  let digits := s.takeWhile Char.isHexDigit
  if digits = [] ∧ based = false then none
  else
    let v := if value digits < 2 ^ 64 then BitVec.ofInt 64 (sign * value digits) else -1
    some (v, s.dropWhile Char.isHexDigit)

/-- `%4s`. -/
def scanWord (n : ℕ) (s : Text) : Option (Text × Text) :=
  let s := s.dropWhile isSpace
  let word := (s.take n).takeWhile (¬ isSpace ·)
  if word = [] then none else some (word, s.drop word.length)

/-- A character of the format that is not blank. -/
def scanChar (c : Char) : Text → Option Text
  | [] => none
  | a :: s => if a = c then some s else none

/-- The start and the offset after `sscanf(line, "%lx-%lx %4s %lx", &start, &end, perms, &offset)`,
which leaves what it does not get to at `0`. -/
def scanLine (line : Text) : Addr × Word :=
  let start := scanHex line
  let offset := do
    let (_, s) ← start
    let s ← scanChar '-' s
    let (_, s) ← scanHex s
    let (_, s) ← scanWord 4 s
    scanHex s
  ((start.map Prod.fst).getD 0, (offset.map Prod.fst).getD 0)

/-! ## `get_load_base` -/

/-- The lines that `std::getline` reads one after the other. -/
def getLines (s : Text) : List Text :=
  let lines := s.splitOn '\n'
  if lines.getLast? = some [] then lines.dropLast else lines

/-- The loop of `get_load_base`. -/
def loadBaseLoop (exePath : Text) : List Text → Addr
  | [] => 0
  | line :: lines =>
    if ¬ exePath <:+: line then loadBaseLoop exePath lines
    else
      let (start, offset) := scanLine line
      if offset = 0 then start else loadBaseLoop exePath lines

/-- `get_load_base`, on the text of `/proc/<pid>/maps`; if it does not open, it has no lines. -/
def getLoadBaseText (maps exePath : Text) : Addr := loadBaseLoop exePath (getLines maps)

/-! ## What the kernel prints -/

/-- A mapping, as `/proc/<pid>/maps` shows it. -/
structure MapsEntry extends MapsLine where
  readable : Bool
  writable : Bool
  executable : Bool
  shared : Bool
  major : ℕ
  minor : ℕ
  inode : ℕ
  /-- The blanks in front of the path. -/
  pad : ℕ
  /-- The kernel prints a newline in a path as `\012`. -/
  newline_not_mem : '\n' ∉ path

namespace MapsEntry

variable (entry : MapsEntry)

def perms : Text :=
  [if entry.readable then 'r' else '-', if entry.writable then 'w' else '-',
    if entry.executable then 'x' else '-', if entry.shared then 's' else 'p']

/-- The columns from the device on, up to the path. -/
def device : Text :=
  padded 2 entry.major ++ ':' :: padded 2 entry.minor ++ ' ' :: decimal entry.inode ++
    ' ' :: List.replicate entry.pad ' '

/-- The columns before the path. -/
def columns : Text :=
  padded 8 entry.start.toNat ++ '-' :: padded 8 entry.stop.toNat ++ ' ' :: entry.perms ++
    ' ' :: padded 8 entry.offset.toNat ++ ' ' :: entry.device

def print : Text := entry.columns ++ entry.path

end MapsEntry

/-- The text of the file. -/
def printMaps (entries : List MapsEntry) : Text :=
  entries.flatMap fun entry => entry.print ++ ['\n']

/-! ## Reading the columns -/

theorem isSpace_of_isHexDigit {c : Char} (h : c.isHexDigit = true) : isSpace c = false := by
  rw [isSpace, decide_eq_false_iff_not]
  intro hmem
  have hnot : [' ', '\t', '\n', '\x0b', '\x0c', '\r'].all (! ·.isHexDigit) = true := by decide
  have hc := List.all_eq_true.1 hnot c hmem
  simp [h] at hc

theorem ne_of_isHexDigit {c a : Char} (h : c.isHexDigit = true) (ha : a.isHexDigit = false) :
    c ≠ a := by
  rintro rfl
  rw [ha] at h
  cases h

/-- A blank in front of a number is skipped. -/
theorem scanHex_blank (s : Text) : scanHex (' ' :: s) = scanHex s := by
  rw [scanHex, List.dropWhile_cons_of_pos rfl]
  rfl

/-- A number is read up to a character that cannot belong to it. -/
theorem scanHex_padded {n v : ℕ} (hv : v < 2 ^ 64) {c : Char} (hc : c.isHexDigit = false)
    (hx : c ≠ 'x') (hX : c ≠ 'X') (s : Text) :
    scanHex (padded n v ++ c :: s) = some (BitVec.ofNat 64 v, c :: s) := by
  have hdigits : ∀ a ∈ padded n v, a.isHexDigit = true := fun a => isHexDigit_of_mem_padded
  obtain ⟨d, ds, hpadded⟩ := List.exists_cons_of_ne_nil (padded_ne_nil n v)
  have hd : d.isHexDigit = true := hdigits d (hpadded ▸ List.mem_cons_self ..)
  have hblank : (padded n v ++ c :: s).dropWhile isSpace = padded n v ++ c :: s := by
    rw [hpadded, List.cons_append, List.dropWhile_cons_of_neg]
    simp [isSpace_of_isHexDigit hd]
  have hsign : splitSign (padded n v ++ c :: s) = (1, padded n v ++ c :: s) := by
    rw [hpadded, List.cons_append]
    exact splitSign.eq_3 _ (fun t ht => ne_of_isHexDigit hd rfl (List.cons.inj ht).1)
      (fun t ht => ne_of_isHexDigit hd rfl (List.cons.inj ht).1)
  -- the second character is a digit, or what follows them
  have hnot : ∀ a, a.isHexDigit = false → a ≠ c → ¬ ['0', a] <+: padded n v ++ c :: s := by
    intro a ha hac hprefix
    rw [hpadded, List.cons_append, List.cons_prefix_cons] at hprefix
    obtain ⟨-, hprefix⟩ := hprefix
    cases ds with
    | nil =>
      rw [List.nil_append, List.cons_prefix_cons] at hprefix
      exact hac hprefix.1
    | cons d' ds =>
      rw [List.cons_append, List.cons_prefix_cons] at hprefix
      have hd' : d'.isHexDigit = true := hdigits d' (hpadded ▸ by simp)
      exact ne_of_isHexDigit hd' ha hprefix.1.symm
  have htake : (padded n v ++ c :: s).takeWhile Char.isHexDigit = padded n v := by
    rw [List.takeWhile_append_of_pos hdigits, List.takeWhile_cons_of_neg (by simp [hc]),
      List.append_nil]
  have hdrop : (padded n v ++ c :: s).dropWhile Char.isHexDigit = c :: s := by
    rw [List.dropWhile_append_of_pos hdigits, List.dropWhile_cons_of_neg (by simp [hc])]
  have hbased := not_or.2 ⟨hnot 'x' rfl hx.symm, hnot 'X' rfl hX.symm⟩
  simp only [scanHex, hblank, hsign, hbased, decide_false, Bool.false_eq_true, if_false, htake,
    hdrop]
  rw [if_neg fun h => padded_ne_nil n v h.1, value_padded, if_pos hv, one_mul,
    BitVec.ofInt_natCast]

namespace MapsEntry

variable (entry : MapsEntry)

theorem isSpace_of_mem_perms {c : Char} (h : c ∈ entry.perms) : isSpace c = false := by
  simp only [perms, List.mem_cons, List.not_mem_nil, or_false] at h
  rcases h with rfl | rfl | rfl | rfl <;> split_ifs <;> rfl

theorem scanWord_perms (s : Text) :
    scanWord 4 (' ' :: (entry.perms ++ s)) = some (entry.perms, s) := by
  have hlength : entry.perms.length = 4 := rfl
  have hblank : (' ' :: (entry.perms ++ s)).dropWhile isSpace = entry.perms ++ s := by
    rw [List.dropWhile_cons_of_pos rfl, perms, List.cons_append, List.dropWhile_cons_of_neg]
    simp [entry.isSpace_of_mem_perms (List.mem_cons_self ..)]
  have hword : ((entry.perms ++ s).take 4).takeWhile (fun c => ¬ isSpace c) = entry.perms := by
    rw [List.take_left' hlength, List.takeWhile_eq_self_iff]
    intro c hc
    simp [entry.isSpace_of_mem_perms hc]
  simp only [scanWord, hblank, hword]
  rw [if_neg (List.ne_nil_of_length_pos (by omega)), List.drop_left]

theorem scanLine_print : scanLine entry.print = (entry.start, entry.offset) := by
  have hstart := scanHex_padded (n := 8) entry.start.isLt (c := '-') rfl (by decide) (by decide)
  have hstop := scanHex_padded (n := 8) entry.stop.isLt (c := ' ') rfl (by decide) (by decide)
  have hoffset := scanHex_padded (n := 8) entry.offset.isLt (c := ' ') rfl (by decide) (by decide)
  have hchar : ∀ s, scanChar '-' ('-' :: s) = some s := fun s => by rw [scanChar, if_pos rfl]
  simp only [scanLine, print, columns, List.append_assoc, List.cons_append, hstart, hchar, hstop,
    Option.bind_eq_bind, Option.bind_some, scanWord_perms, scanHex_blank, hoffset,
    Option.map_some, Option.getD_some, BitVec.ofNat_toNat, BitVec.setWidth_eq]

/-! ## Finding the executable -/

/-- What there is in the columns before the path. -/
theorem mem_columns {c : Char} (h : c ∈ entry.columns) :
    c.isHexDigit = true ∨ c ∈ ['-', ' ', ':', 'r', 'w', 'x', 's', 'p'] := by
  have hpadded : ∀ {n v}, c ∈ padded n v → c.isHexDigit = true := isHexDigit_of_mem_padded
  have hdecimal : ∀ {n}, c ∈ decimal n → c.isHexDigit = true := fun hc => by
    rw [Char.isHexDigit, Nat.isDigit_of_mem_toDigits (by decide) (by decide) hc]
    rfl
  have hperms : c ∈ entry.perms → c ∈ ['-', ' ', ':', 'r', 'w', 'x', 's', 'p'] := by
    simp only [perms, List.mem_cons, List.not_mem_nil, or_false]
    rintro (rfl | rfl | rfl | rfl) <;> split_ifs <;> simp
  have hpad : c ∈ List.replicate entry.pad ' ' → c = ' ' := List.eq_of_mem_replicate
  simp only [columns, device, List.cons_append, List.append_assoc, List.mem_append,
    List.mem_cons] at h
  grind

theorem not_mem_columns {c : Char} (hdigit : c.isHexDigit = false)
    (hc : c ∉ ['-', ' ', ':', 'r', 'w', 'x', 's', 'p']) : c ∉ entry.columns := by
  intro h
  rcases entry.mem_columns h with h | h
  · rw [hdigit] at h
    cases h
  · exact hc h

end MapsEntry

/-- A text cannot begin among characters that are not its first one. -/
theorem infix_append_iff {c : Char} {s before after : Text} (h : c ∉ before) :
    c :: s <:+: before ++ after ↔ c :: s <:+: after := by
  induction before with
  | nil => rfl
  | cons a before ih =>
    rw [List.mem_cons, not_or] at h
    rw [List.cons_append, List.infix_cons_iff, ih h.2, List.cons_prefix_cons]
    simp [h.1]

theorem MapsEntry.infix_print_iff (entry : MapsEntry) {exePath : Text}
    (h : exePath.head? = some '/') : exePath <:+: entry.print ↔ exePath <:+: entry.path := by
  obtain ⟨s, rfl⟩ := List.head?_eq_some_iff.1 h
  exact infix_append_iff (entry.not_mem_columns rfl (by decide))

theorem getLoadBase_cons (line : MapsLine) (lines : List MapsLine) (exePath : Text) :
    getLoadBase (line :: lines) exePath =
      if exePath <:+: line.path ∧ line.offset = 0 then line.start
      else getLoadBase lines exePath := by
  rw [getLoadBase, List.find?_cons]
  by_cases h : exePath <:+: line.path ∧ line.offset = 0
  · rw [decide_eq_true h, if_pos h]
  · rw [decide_eq_false h, if_neg h]
    rfl

theorem loadBaseLoop_print {exePath : Text} (h : exePath.head? = some '/')
    (entries : List MapsEntry) :
    loadBaseLoop exePath (entries.map MapsEntry.print) =
      getLoadBase (entries.map (·.toMapsLine)) exePath := by
  induction entries with
  | nil => rfl
  | cons entry entries ih =>
    have hoccurs := entry.infix_print_iff h
    rw [List.map_cons, List.map_cons, loadBaseLoop, entry.scanLine_print, getLoadBase_cons, ih]
    by_cases hpath : exePath <:+: entry.path
    · rw [if_neg (not_not.2 (hoccurs.2 hpath))]
      exact if_congr (and_iff_right hpath).symm rfl rfl
    · rw [if_pos (mt hoccurs.1 hpath), if_neg (fun h => hpath h.1)]

theorem splitOn_printMaps (entries : List MapsEntry) :
    (printMaps entries).splitOn '\n' = entries.map MapsEntry.print ++ [[]] := by
  induction entries with
  | nil => rfl
  | cons entry entries ih =>
    have hnewline : '\n' ∉ entry.print := by
      rw [MapsEntry.print, List.mem_append, not_or]
      exact ⟨entry.not_mem_columns rfl (by decide), entry.newline_not_mem⟩
    rw [printMaps, List.flatMap_cons, List.append_assoc, List.singleton_append,
      List.splitOn_append_cons_self_of_not_mem hnewline, ← printMaps, ih, List.map_cons,
      List.cons_append]

theorem getLines_printMaps (entries : List MapsEntry) :
    getLines (printMaps entries) = entries.map MapsEntry.print := by
  simp only [getLines, splitOn_printMaps]
  rw [List.getLast?_concat, if_pos rfl, List.dropLast_concat]

/-- **What the kernel prints is read as it was meant**: an absolute path is found in the path column
only, and the first and third number of a line are its start and its offset. -/
theorem getLoadBaseText_eq {exePath : Text} (h : exePath.head? = some '/')
    (entries : List MapsEntry) :
    getLoadBaseText (printMaps entries) exePath =
      getLoadBase (entries.map (·.toMapsLine)) exePath := by
  rw [getLoadBaseText, getLines_printMaps, loadBaseLoop_print h]

/-- The first page of a program. -/
def MapsEntry.app (start : Addr) : MapsEntry where
  start
  stop := start + 0x1000
  offset := 0
  path := "/bin/app".toList
  readable := true
  writable := false
  executable := true
  shared := false
  major := 8
  minor := 1
  inode := 1234
  pad := 4
  newline_not_mem := by decide

example :
    getLoadBaseText "555555554000-555555555000 r-xp 00000000 08:01 1234     /bin/app\n".toList
      "/bin/app".toList = 0x555555554000 :=
  getLoadBaseText_eq rfl [.app 0x555555554000]

end Uatu
