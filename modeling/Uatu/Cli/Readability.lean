import Uatu.Cli.Formatter
import Uatu.Cli.Parameters
import Uatu.Foundations.Outline

/-!
# Reading the output back

What `main` prints of the samples of a command tells the samples, up to the digits of the durations
and the times that are not printed, as long as no name has a newline in it: events of `watch`
(`printEvents_eq_iff`), trees of `trace` (`printNodes_eq_iff`) and stacks (`printStacks_eq_iff`).
-/

namespace Uatu

open Outline Separation

/-! ## Pieces of a line -/

/-- A number is told by what is no digit behind it. -/
theorem decimal_append_inj {m n : ℕ} {s t : Text} (hs : ∀ c ∈ s.head?, ¬ c.isDigit = true)
    (ht : ∀ c ∈ t.head?, ¬ c.isDigit = true) (h : decimal m ++ s = decimal n ++ t) :
    m = n ∧ s = t := by
  obtain ⟨hdigits, hrest⟩ := append_inj_of_head (p := fun c => Char.isDigit c = true)
    (fun _ => isDigit_of_mem_decimal) (fun _ => isDigit_of_mem_decimal) hs ht h
  exact ⟨decimal_inj hdigits, hrest⟩

theorem not_mem_decimal {c : Char} (hc : c.isDigit = false) (n : ℕ) : c ∉ decimal n := by
  intro hmem
  have hdigit := isDigit_of_mem_decimal hmem
  rw [hc] at hdigit
  cases hdigit

theorem leftpad_decimal_inj {m n k : ℕ}
    (h : (decimal m).leftpad k '0' = (decimal n).leftpad k '0') : m = n := by
  have hvalue : ∀ v, Nat.ofDigitChars 10 ((decimal v).leftpad k '0') 0 = v := by
    intro v
    rw [List.leftpad, Nat.ofDigitChars_append, Nat.ofDigitChars_replicate_zero, Nat.mul_zero]
    exact Nat.ofDigitChars_ten_toDigits
  rw [← hvalue m, h, hvalue]

theorem thousandthsText_inj {m n : ℕ} (h : thousandthsText m = thousandthsText n) : m = n := by
  obtain ⟨hint, hfrac⟩ :=
    append_cons_inj_first (not_mem_decimal rfl _) (not_mem_decimal rfl _) h
  have hdiv := decimal_inj hint
  have hmod := leftpad_decimal_inj hfrac
  omega

theorem not_mem_thousandthsText {c : Char} (hc : c.isDigit = false) (hpoint : c ≠ '.') (n : ℕ) :
    c ∉ thousandthsText n := by
  have hzero : c ≠ '0' := by
    rintro rfl
    cases hc
  rw [thousandthsText, List.mem_append, List.mem_cons, List.leftpad, List.mem_append, not_or,
    not_or, not_or]
  exact ⟨not_mem_decimal hc _, hpoint, fun h => hzero (List.eq_of_mem_replicate h),
    not_mem_decimal hc _⟩

/-! ## Events -/

/-- What is printed of an event tells it. -/
structure WatchEvent.Told (ev : WatchEvent) : Prop where
  funcName : '\n' ∉ ev.funcName
  retValue : ' ' ∉ ev.retValue ∧ '\n' ∉ ev.retValue
  params : ∃ params : List ShownParam, ev.params = params.map ShownParam.text

/-- Two events are alike up to the digits of their durations. -/
structure WatchEvent.SameShown (ev ev' : WatchEvent) : Prop where
  timestampNs : ev.timestampNs = ev'.timestampNs
  durationNs : shownMicros ev.durationNs = shownMicros ev'.durationNs
  funcName : ev.funcName = ev'.funcName
  params : ev.params = ev'.params
  retValue : ev.retValue = ev'.retValue

/-- What `main` prints of the events of a `watch`. -/
def printEvents (evs : List WatchEvent) : Text :=
  evs.flatMap fun ev => formatWatchEvent ev ++ ['\n']

namespace WatchEvent

variable (ev : WatchEvent)

def headLine : Text :=
  "ts=".toList ++ decimal ev.timestampNs.toNat ++ "  func=".toList ++ ev.funcName ++
    "  cost=".toList ++ fixed3 (costMs ev.durationNs) ++ "ms".toList ++ "  ret=".toList ++
    ev.retValue

def paramsLine : Text := "  params=[".toList ++ ", ".toList.intercalate ev.params ++ "]".toList

/-- The lines of an event. -/
def lines : List Text := ev.headLine :: if ev.params = [] then [] else [ev.paramsLine]

theorem formatWatchEvent_eq :
    formatWatchEvent ev ++ ['\n'] = ev.lines.flatMap (· ++ ['\n']) := by
  have hformat : formatWatchEvent ev = ev.headLine ++
      if ev.params = [] then [] else '\n' :: ev.paramsLine := rfl
  rw [hformat, lines]
  by_cases h : ev.params = []
  · rw [if_pos h, if_pos h, List.append_nil, List.flatMap_singleton]
  · rw [if_neg h, if_neg h, List.flatMap_cons, List.flatMap_singleton, List.append_assoc,
      List.append_assoc]
    rfl

variable {ev} {ev' : WatchEvent}

/-- The line up to the duration. -/
def headStart (ev : WatchEvent) : Text :=
  "ts=".toList ++ (decimal ev.timestampNs.toNat ++ ("  func=".toList ++ (ev.funcName ++ [' '])))

/-- The duration, and the value, behind the blanks in front of them. -/
def costField (ev : WatchEvent) : Text :=
  "cost=".toList ++ (fixed3 (costMs ev.durationNs) ++ "ms".toList)

def retField (ev : WatchEvent) : Text := "ret=".toList ++ ev.retValue

theorem headLine_eq (ev : WatchEvent) :
    ev.headLine = (ev.headStart ++ ' ' :: ev.costField ++ [' ']) ++ ' ' :: ev.retField := by
  have hcost : "  cost=".toList = [' '] ++ ' ' :: "cost=".toList := by decide
  have hret : "  ret=".toList = [' '] ++ ' ' :: "ret=".toList := by decide
  unfold headLine headStart costField retField
  simp only [hcost, hret, List.append_assoc, List.cons_append, List.nil_append]

theorem headLine_inj (hev : ev.Told) (hev' : ev'.Told) (h : ev.headLine = ev'.headLine) :
    ev.timestampNs = ev'.timestampNs ∧ shownMicros ev.durationNs = shownMicros ev'.durationNs ∧
      ev.funcName = ev'.funcName ∧ ev.retValue = ev'.retValue := by
  have hret : ∀ {s : Text}, ' ' ∉ s → ' ' ∉ "ret=".toList ++ s := fun {s} hs =>
    fun hc => (List.mem_append.1 hc).elim (by decide) hs
  have hcost : ∀ ev : WatchEvent, ' ' ∉ ev.costField := by
    intro ev hc
    rcases List.mem_append.1 hc with hc | hc
    · exact absurd hc (by decide)
    rcases List.mem_append.1 hc with hc | hc
    · exact not_mem_thousandthsText rfl (by decide) _ hc
    · exact absurd hc (by decide)
  have hfunc : ∀ s, ∀ c ∈ ("  func=".toList ++ s).head?, ¬ c.isDigit = true := by
    have hblank : "  func=".toList = ' ' :: " func=".toList := by decide
    intro s c hc
    rw [hblank] at hc
    obtain rfl : ' ' = c := Option.some.inj hc
    decide
  rw [headLine_eq, headLine_eq] at h
  obtain ⟨h, hvalue⟩ := append_cons_inj_last (hret hev.retValue.1) (hret hev'.retValue.1) h
  obtain ⟨h, hduration⟩ :=
    append_cons_inj_last (hcost _) (hcost _) (List.append_cancel_right h)
  have hdigits := List.append_cancel_right (List.append_cancel_left hduration)
  obtain ⟨htime, hname⟩ := decimal_append_inj (hfunc _) (hfunc _) (List.append_cancel_left h)
  exact ⟨BitVec.eq_of_toNat_eq htime, thousandthsText_inj hdigits,
    List.append_cancel_right (List.append_cancel_left hname), List.append_cancel_left hvalue⟩

theorem ts_prefix_headLine (ev : WatchEvent) : "ts=".toList <+: ev.headLine := by
  unfold headLine
  simp only [List.append_assoc]
  exact List.prefix_append ..

theorem not_ts_prefix_paramsLine (ev : WatchEvent) : ¬ "ts=".toList <+: ev.paramsLine := by
  have hts : "ts=".toList = 't' :: "s=".toList := by decide
  have hparams : "  params=[".toList = ' ' :: " params=[".toList := by decide
  unfold paramsLine
  rw [hts, hparams, List.cons_append, List.cons_append, List.cons_prefix_cons]
  exact fun h => absurd h.1 (by decide)

/-- An event begins with its time, and no other line of it does. -/
theorem headed_lines (ev : WatchEvent) : Headed (fun l => "ts=".toList <+: l) ev.lines := by
  refine ⟨_, _, rfl, ev.ts_prefix_headLine, fun l hl => ?_⟩
  split_ifs at hl
  · cases hl
  · rw [List.mem_singleton.1 hl]
    exact ev.not_ts_prefix_paramsLine

theorem params_inj (hev : ev.Told) (hev' : ev'.Told) (hne : ev.params ≠ []) (hne' : ev'.params ≠ [])
    (h : ev.paramsLine = ev'.paramsLine) : ev.params = ev'.params := by
  obtain ⟨params, hparams⟩ := hev.params
  obtain ⟨params', hparams'⟩ := hev'.params
  unfold paramsLine at h
  rw [hparams, hparams'] at h
  rw [hparams, ne_eq, List.map_eq_nil_iff] at hne
  rw [hparams', ne_eq, List.map_eq_nil_iff] at hne'
  have hlist := List.append_cancel_left (List.append_cancel_right h)
  rw [hparams, hparams', intercalate_shown_injective hne hne' hlist]

/-- The lines of an event tell it. -/
theorem lines_inj (hev : ev.Told) (hev' : ev'.Told) (h : ev.lines = ev'.lines) :
    ev.SameShown ev' := by
  rw [lines, lines, List.cons.injEq] at h
  obtain ⟨htime, hduration, hname, hvalue⟩ := headLine_inj hev hev' h.1
  refine ⟨htime, hduration, hname, ?_, hvalue⟩
  have hparams := h.2
  split_ifs at hparams with hne hne' hne'
  · rw [hne, hne']
  · exact params_inj hev hev' hne hne' (List.singleton_inj.1 hparams)

/-- Only the digits of the duration that are shown matter. -/
theorem SameShown.formatWatchEvent_eq (h : ev.SameShown ev') :
    formatWatchEvent ev = formatWatchEvent ev' := by
  have hcost : fixed3 (costMs ev.durationNs) = fixed3 (costMs ev'.durationNs) :=
    congrArg thousandthsText h.durationNs
  unfold formatWatchEvent
  rw [hcost, h.timestampNs, h.funcName, h.params, h.retValue]

theorem newline_not_mem_headLine (hev : ev.Told) : '\n' ∉ ev.headLine := by
  unfold headLine
  simp only [List.mem_append, not_or]
  exact ⟨⟨⟨⟨⟨⟨⟨⟨by decide, not_mem_decimal rfl _⟩, by decide⟩, hev.funcName⟩, by decide⟩,
    not_mem_thousandthsText rfl (by decide) _⟩, by decide⟩, by decide⟩, hev.retValue.2⟩

theorem newline_not_mem_paramsLine (hev : ev.Told) : '\n' ∉ ev.paramsLine := by
  obtain ⟨params, hparams⟩ := hev.params
  unfold paramsLine
  rw [hparams]
  simp only [List.mem_append, not_or]
  exact ⟨⟨by decide, newline_not_mem_intercalate params⟩, by decide⟩

theorem newline_not_mem_lines (hev : ev.Told) : ∀ l ∈ ev.lines, '\n' ∉ l := by
  rw [lines, List.forall_mem_cons]
  refine ⟨newline_not_mem_headLine hev, fun l hl => ?_⟩
  split_ifs at hl
  · cases hl
  · rw [List.mem_singleton.1 hl]
    exact newline_not_mem_paramsLine hev

end WatchEvent

/-- **Events are told by what is printed of them.** -/
theorem printEvents_eq_iff {evs evs' : List WatchEvent} (hevs : ∀ ev ∈ evs, ev.Told)
    (hevs' : ∀ ev ∈ evs', ev.Told) :
    printEvents evs = printEvents evs' ↔ List.Forall₂ WatchEvent.SameShown evs evs' := by
  refine ⟨fun h => ?_, fun h => flatMap_eq_of_forall₂ (fun ev ev' h => ?_) h⟩
  swap
  · rw [h.formatWatchEvent_eq]
  have hprint : ∀ evs, printEvents evs = evs.flatMap fun ev => ev.lines.flatMap (· ++ ['\n']) :=
    fun evs => List.flatMap_congr fun ev _ => ev.formatWatchEvent_eq
  rw [hprint, hprint] at h
  exact forall₂_of_flatMap_lines (fun ev _ => ev.headed_lines)
    (fun ev hev => WatchEvent.newline_not_mem_lines hev)
    (fun ev ev' hev hev' => WatchEvent.lines_inj hev hev') hevs hevs' h

/-! ## Trees -/

/-- A line of a tree: its depth, the function and the microseconds. -/
def nodeLine : ℕ × Text × ℕ → Text
  | (depth, funcName, micros) =>
    List.replicate (depth * 2) ' ' ++ "+-".toList ++ funcName ++ " [".toList ++
      thousandthsText micros ++ "ms]".toList

mutual

/-- What is printed of a node, as a tree. -/
def TraceNode.shown : TraceNode → Rose (Text × ℕ)
  | ⟨funcName, durationNs, _, children⟩ =>
    .node (funcName, shownMicros durationNs) (shownNodes children)

def shownNodes : List TraceNode → List (Rose (Text × ℕ))
  | [] => []
  | child :: children => child.shown :: shownNodes children

end

/-- What `main` prints of the nodes of a `trace`. -/
def printNodes (nodes : List TraceNode) : Text :=
  nodes.flatMap fun node => formatTraceNode node 0 ++ ['\n']

mutual

/-- A node is printed as its outline. -/
theorem formatTraceNode_eq : ∀ (node : TraceNode) (n : ℕ), formatTraceNode node n =
    ((outline n node.shown).map nodeLine).flatMap (· ++ ['\n'])
  | ⟨funcName, durationNs, _, children⟩, n => by
    have hend : "ms]\n".toList = "ms]".toList ++ ['\n'] := by decide
    have hlines := formatTraceNodes_eq children (n + 1)
    rw [formatTraceNode, hlines, hend, TraceNode.shown, outline, List.map_cons, List.flatMap_cons,
      List.append_cancel_right_eq, ← List.append_assoc]
    rfl

theorem formatTraceNodes_eq : ∀ (nodes : List TraceNode) (n : ℕ), formatTraceNodes nodes n =
    ((outlines n (shownNodes nodes)).map nodeLine).flatMap (· ++ ['\n'])
  | [], n => rfl
  | child :: children, n => by
    rw [formatTraceNodes, formatTraceNode_eq child n, formatTraceNodes_eq children n, shownNodes,
      outlines, List.map_append, List.flatMap_append]

end

/-- The line of a function at a depth, split after the blanks and at the last one. -/
theorem nodeLine_eq (depth : ℕ) (funcName : Text) (micros : ℕ) :
    nodeLine (depth, funcName, micros) = List.replicate (depth * 2) ' ' ++
      '+' :: ('-' :: funcName ++
        ' ' :: ("[".toList ++ (thousandthsText micros ++ "ms]".toList))) := by
  have hmark : "+-".toList = ['+', '-'] := by decide
  have hopen : " [".toList = ' ' :: "[".toList := by decide
  unfold nodeLine
  simp only [hmark, hopen, List.append_assoc, List.cons_append, List.nil_append]

theorem nodeLine_injective : Function.Injective nodeLine := by
  rintro ⟨depth, funcName, micros⟩ ⟨depth', funcName', micros'⟩ h
  rw [nodeLine_eq, nodeLine_eq] at h
  have hblanks : ∀ n, ∀ c ∈ List.replicate n ' ', c = ' ' := fun n c => List.eq_of_mem_replicate
  obtain ⟨hdepth, hrest⟩ := append_inj_of_head (hblanks _) (hblanks _) (by simp) (by simp) h
  have hcost : ∀ n, ' ' ∉ "[".toList ++ (thousandthsText n ++ "ms]".toList) := by
    intro n
    simp only [List.mem_append, not_or]
    exact ⟨by decide, not_mem_thousandthsText rfl (by decide) n, by decide⟩
  obtain ⟨hname, hmicros⟩ :=
    append_cons_inj_last (hcost _) (hcost _) (List.cons.inj hrest).2
  have hlength := congrArg List.length hdepth
  rw [List.length_replicate, List.length_replicate] at hlength
  obtain rfl : depth = depth' := by omega
  rw [(List.cons.inj hname).2,
    thousandthsText_inj (List.append_cancel_right (List.append_cancel_left hmicros))]

namespace TraceNode

/-- No name in the tree has a newline in it. -/
def Told (node : TraceNode) : Prop := ∀ x ∈ outline 0 node.shown, '\n' ∉ x.2.1

/-- The lines of a node: its outline and an empty one. -/
def lines (node : TraceNode) : List Text := (outline 0 node.shown).map nodeLine ++ [[]]

theorem newline_not_mem_lines {node : TraceNode} (h : node.Told) : ∀ l ∈ node.lines, '\n' ∉ l := by
  intro l hl
  rcases List.mem_append.1 hl with hl | hl
  · obtain ⟨⟨depth, funcName, micros⟩, hx, rfl⟩ := List.mem_map.1 hl
    unfold nodeLine
    simp only [List.mem_append, not_or]
    exact ⟨⟨⟨⟨⟨fun hc => absurd (List.eq_of_mem_replicate hc) (by decide), by decide⟩, h _ hx⟩,
      by decide⟩, not_mem_thousandthsText rfl (by decide) _⟩, by decide⟩
  · rw [List.mem_singleton.1 hl]
    exact List.not_mem_nil

/-- The root is the only line that begins with its mark. -/
theorem headed_lines (node : TraceNode) : Headed (fun l => l.head? = some '+') node.lines := by
  obtain ⟨x, rest, houtline, hx, hrest⟩ := headed_outline 0 node.shown
  have hhead : ∀ y : ℕ × Text × ℕ, (nodeLine y).head? = some '+' ↔ y.1 = 0 := by
    rintro ⟨depth, funcName, micros⟩
    rw [nodeLine_eq]
    cases depth with
    | zero => simp
    | succ depth => simp [Nat.succ_mul, List.replicate_succ]
  refine ⟨nodeLine x, rest.map nodeLine ++ [[]], by rw [lines, houtline]; rfl, (hhead x).2 hx,
    fun l hl h => ?_⟩
  rcases List.mem_append.1 hl with hl | hl
  · obtain ⟨y, hy, rfl⟩ := List.mem_map.1 hl
    exact hrest y hy ((hhead y).1 h)
  · rw [List.mem_singleton.1 hl] at h
    cases h

theorem lines_inj {node node' : TraceNode} (h : node.lines = node'.lines) :
    node.shown = node'.shown := by
  have hmap := List.append_cancel_right h
  exact outline_injective _ _ 0 (nodeLine_injective.list_map hmap)

end TraceNode

/-- **Trees are told by what is printed of them.** -/
theorem printNodes_eq_iff {nodes nodes' : List TraceNode} (hnodes : ∀ node ∈ nodes, node.Told)
    (hnodes' : ∀ node ∈ nodes', node.Told) : printNodes nodes = printNodes nodes' ↔
      List.Forall₂ (fun node node' => node.shown = node'.shown) nodes nodes' := by
  refine ⟨fun h => ?_, fun h => flatMap_eq_of_forall₂ (fun node node' h => ?_) h⟩
  swap
  · rw [formatTraceNode_eq, formatTraceNode_eq, h]
  have hprint : ∀ nodes, printNodes nodes =
      nodes.flatMap fun node => node.lines.flatMap (· ++ ['\n']) := by
    intro nodes
    refine List.flatMap_congr fun node _ => ?_
    rw [formatTraceNode_eq, TraceNode.lines, List.flatMap_append]
    rfl
  rw [hprint, hprint] at h
  exact forall₂_of_flatMap_lines (fun node _ => node.headed_lines)
    (fun node hnode => TraceNode.newline_not_mem_lines hnode)
    (fun node node' _ _ => TraceNode.lines_inj) hnodes hnodes' h

/-- A call within a call. -/
def TraceNode.nested : TraceNode :=
  ⟨"main".toList, 5000000, 0, [⟨"f".toList, 1234567, 0, [⟨"g".toList, 1000, 0, []⟩]⟩]⟩

/-- Two calls one after the other. -/
def TraceNode.flat : TraceNode :=
  ⟨"main".toList, 5000000, 0, [⟨"f".toList, 1234567, 0, []⟩, ⟨"g".toList, 1000, 0, []⟩]⟩

theorem printNodes_nested_ne : printNodes [.nested] ≠ printNodes [.flat] := by
  have hnested : TraceNode.nested.Told := by
    have hnames : ∀ name ∈ (outline 0 TraceNode.nested.shown).map (·.2.1), '\n' ∉ name := by decide
    exact fun x hx => hnames _ (List.mem_map_of_mem hx)
  have hflat : TraceNode.flat.Told := by
    have hnames : ∀ name ∈ (outline 0 TraceNode.flat.shown).map (·.2.1), '\n' ∉ name := by decide
    exact fun x hx => hnames _ (List.mem_map_of_mem hx)
  rw [ne_eq, printNodes_eq_iff (List.forall_mem_singleton.2 hnested)
    (List.forall_mem_singleton.2 hflat)]
  rintro (_ | ⟨h, -⟩)
  have hlength := congrArg (fun t => (outline 0 t).map Prod.fst) h
  exact absurd hlength (by decide)

/-! ## Stacks -/

/-- What `main` prints of the events of a `stack`. -/
def printStacks (evs : List StackEvent) : Text :=
  evs.flatMap fun ev => formatStackEvent ev ++ ['\n']

namespace StackEvent

/-- No name has a newline in it. -/
structure Told (ev : StackEvent) : Prop where
  funcName : '\n' ∉ ev.funcName
  frames : ∀ frame ∈ ev.frames, '\n' ∉ frame

def frameLine : Text × ℕ → Text
  | (frame, i) => "  [".toList ++ decimal i ++ "] ".toList ++ frame

/-- The lines of a stack: the function, its frames and an empty one. -/
def lines (ev : StackEvent) : List Text :=
  ("func=".toList ++ ev.funcName) :: (ev.frames.zipIdx.map frameLine ++ [[]])

theorem frameLine_injective : Function.Injective frameLine := by
  rintro ⟨frame, i⟩ ⟨frame', i'⟩ h
  have hclose : ∀ s, ∀ c ∈ ("] ".toList ++ s).head?, ¬ c.isDigit = true := by
    have hmark : "] ".toList = ']' :: " ".toList := by decide
    intro s c hc
    rw [hmark] at hc
    obtain rfl : ']' = c := Option.some.inj hc
    decide
  unfold frameLine at h
  simp only [List.append_assoc] at h
  obtain ⟨rfl, hframe⟩ := decimal_append_inj (hclose _) (hclose _) (List.append_cancel_left h)
  rw [List.append_cancel_left hframe]

theorem formatStackEvent_eq (ev : StackEvent) :
    formatStackEvent ev ++ ['\n'] = ev.lines.flatMap (· ++ ['\n']) := by
  have hnewline : "\n".toList = ['\n'] := by decide
  have hframes : ev.frames.zipIdx.flatMap (fun x =>
      "  [".toList ++ decimal x.2 ++ "] ".toList ++ x.1 ++ "\n".toList) =
      (ev.frames.zipIdx.map frameLine).flatMap (· ++ ['\n']) := by
    rw [List.flatMap_map, hnewline]
    rfl
  have hformat : formatStackEvent ev = "func=".toList ++ ev.funcName ++ "\n".toList ++
      ev.frames.zipIdx.flatMap (fun x =>
        "  [".toList ++ decimal x.2 ++ "] ".toList ++ x.1 ++ "\n".toList) := rfl
  rw [hformat, hframes, lines, List.flatMap_cons, List.flatMap_append, hnewline]
  simp only [List.append_assoc]
  rfl

theorem newline_not_mem_lines {ev : StackEvent} (h : ev.Told) : ∀ l ∈ ev.lines, '\n' ∉ l := by
  rw [lines, List.forall_mem_cons]
  refine ⟨?_, fun l hl => ?_⟩
  · rw [List.mem_append, not_or]
    exact ⟨by decide, h.funcName⟩
  rcases List.mem_append.1 hl with hl | hl
  · obtain ⟨⟨frame, i⟩, hframe, rfl⟩ := List.mem_map.1 hl
    unfold frameLine
    simp only [List.mem_append, not_or]
    exact ⟨⟨⟨by decide, not_mem_decimal rfl i⟩, by decide⟩,
      h.frames frame (List.fst_mem_of_mem_zipIdx hframe)⟩
  · rw [List.mem_singleton.1 hl]
    exact List.not_mem_nil

/-- A stack begins with its function, and its other lines begin otherwise. -/
theorem headed_lines (ev : StackEvent) : Headed (fun l => "func=".toList <+: l) ev.lines := by
  have hfunc : "func=".toList = 'f' :: "unc=".toList := by decide
  have hframe : "  [".toList = ' ' :: " [".toList := by decide
  refine ⟨_, _, rfl, List.prefix_append .., fun l hl => ?_⟩
  rcases List.mem_append.1 hl with hl | hl
  · obtain ⟨⟨frame, i⟩, -, rfl⟩ := List.mem_map.1 hl
    unfold frameLine
    simp only [hfunc, hframe, List.cons_append, List.cons_prefix_cons]
    exact fun h => absurd h.1 (by decide)
  · rw [List.mem_singleton.1 hl, hfunc]
    exact fun h => List.cons_ne_nil _ _ (List.prefix_nil.1 h)

/-- Two stacks are alike up to their times. -/
def SameShown (ev ev' : StackEvent) : Prop := ev.funcName = ev'.funcName ∧ ev.frames = ev'.frames

theorem lines_inj {ev ev' : StackEvent} (h : ev.lines = ev'.lines) : ev.SameShown ev' := by
  rw [lines, lines, List.cons.injEq] at h
  have hzip := frameLine_injective.list_map (List.append_cancel_right h.2)
  have hframes := congrArg (List.map Prod.fst) hzip
  rw [List.zipIdx_map_fst, List.zipIdx_map_fst] at hframes
  exact ⟨List.append_cancel_left h.1, hframes⟩

end StackEvent

/-- **Stacks are told by what is printed of them.** -/
theorem printStacks_eq_iff {evs evs' : List StackEvent} (hevs : ∀ ev ∈ evs, ev.Told)
    (hevs' : ∀ ev ∈ evs', ev.Told) :
    printStacks evs = printStacks evs' ↔ List.Forall₂ StackEvent.SameShown evs evs' := by
  refine ⟨fun h => ?_, fun h => flatMap_eq_of_forall₂ (fun ev ev' h => ?_) h⟩
  swap
  · unfold formatStackEvent
    rw [h.1, h.2]
  have hprint : ∀ evs, printStacks evs = evs.flatMap fun ev => ev.lines.flatMap (· ++ ['\n']) :=
    fun evs => List.flatMap_congr fun ev _ => ev.formatStackEvent_eq
  rw [hprint, hprint] at h
  exact forall₂_of_flatMap_lines (fun ev _ => ev.headed_lines)
    (fun ev hev => StackEvent.newline_not_mem_lines hev)
    (fun ev ev' _ _ => StackEvent.lines_inj) hevs hevs' h

end Uatu
