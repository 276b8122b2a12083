import Mathlib.Data.List.DropRight
import Mathlib.Data.List.TakeWhile
import SmallCpp.Conformance

/-!
# Expectation files state runs exactly

A file that is written from a list of events and a failure is read back as just these, whatever its
line ends and whatever blank lines and remarks it has. Two things make it so. No line of an event is
blank, a remark or an error line, since the characters that would make it one are escaped
(`plain_lineOf`); and an escape is the text of no event, so that the line of an event tells its text
(`lineOf_eq_iff`).
-/

namespace SmallCpp

namespace Text

variable {p : Char → Bool} {cs : List Char}

/-- Dropping from the end is what the library calls `rdropWhile`. -/
theorem dropEndWhile_eq : dropEndWhile p cs = cs.rdropWhile p :=
  rfl

/-- Nothing is dropped from a text that has no such character. -/
theorem dropEndWhile_of_forall (h : ∀ c ∈ cs, p c = false) : dropEndWhile p cs = cs := by
  rw [dropEndWhile_eq, List.rdropWhile_eq_self_iff]
  intro hne
  simp [h _ (List.getLast_mem hne)]

/-- A word with a space in front is trimmed to the word. -/
theorem trimmed_space (h : ∀ c ∈ cs, isBlank c = false) : trimmed (' ' :: cs) = cs := by
  have hspace : (' ' :: cs).dropWhile isBlank = cs.dropWhile isBlank := rfl
  have hfront : cs.dropWhile isBlank = cs := by
    rw [List.dropWhile_eq_self_iff]
    intro hpos
    simp [h _ (List.getElem_mem hpos)]
  rw [trimmed, hspace, hfront, dropEndWhile_of_forall h]

variable {separator : Char}

/-- A text without the separator is one piece. -/
theorem split_of_not_mem (h : separator ∉ cs) : split separator cs = [cs] := by
  induction cs with
  | nil => rfl
  | cons c cs ih =>
    rw [List.mem_cons, not_or] at h
    rw [split, if_neg (Ne.symm h.1), ih h.2]

/-- The first separator ends the first piece. -/
theorem split_append (h : separator ∉ cs) (rest : List Char) :
    split separator (cs ++ separator :: rest) = cs :: split separator rest := by
  induction cs with
  | nil => rw [List.nil_append, split, if_pos rfl]
  | cons c cs ih =>
    rw [List.mem_cons, not_or] at h
    rw [List.cons_append, split, if_neg (Ne.symm h.1), ih h.2]

end Text

namespace Event

/-- The characters that a number is written with. -/
def IsNumeral (text : String) : Prop :=
  text.toList ≠ [] ∧ ∀ c ∈ text.toList, c.isDigit = true ∨ c = '-'

/-- A natural number is written with digits. -/
theorem isNumeral_repr (n : Nat) : IsNumeral n.repr := by
  rw [IsNumeral, Nat.repr, String.toList_ofList]
  refine ⟨Nat.toDigits_ne_nil, fun c hc => .inl ?_⟩
  exact Nat.isDigit_of_mem_toDigits (by decide) (by decide) hc

/-- An integer is written with digits and possibly a sign. -/
theorem isNumeral_toString (n : Int) : IsNumeral (toString n) := by
  cases n with
  | ofNat n => exact isNumeral_repr n
  | negSucc n =>
    have hsign : (toString (Int.negSucc n)).toList = '-' :: n.succ.repr.toList :=
      String.toList_append
    obtain ⟨-, hdigits⟩ := isNumeral_repr n.succ
    rw [IsNumeral, hsign]
    exact ⟨List.cons_ne_nil _ _, List.forall_mem_cons.mpr ⟨.inr rfl, hdigits⟩⟩

/-- A number that is printed is written as a number. -/
theorem isNumeral_int (n : Int64) : IsNumeral (int n).text :=
  isNumeral_toString n.toInt

/-- A truth value is printed as `0` or `1`. -/
theorem isNumeral_bool (b : Bool) : IsNumeral (bool b).text := by
  cases b with
  | false => exact ⟨by decide, List.forall_mem_singleton.mpr (.inl rfl)⟩
  | true => exact ⟨by decide, List.forall_mem_singleton.mpr (.inl rfl)⟩

/-- A character that numbers do not have is not in them. -/
theorem IsNumeral.not_mem {text : String} {c : Char} (h : IsNumeral text)
    (hdigit : c.isDigit = false) (hsign : c ≠ '-') : c ∉ text.toList := by
  intro hc
  obtain hnumeral | hnumeral := h.2 c hc
  · rw [hdigit] at hnumeral
    cases hnumeral
  · exact hsign hnumeral

/-- A character is printed as itself. -/
theorem toList_char (c : UInt8) : (char c).text.toList = [Char.ofNat c.toNat] :=
  String.toList_singleton _

/-- Bytes are different characters. -/
theorem ofNat_toNat_eq_iff {c d : UInt8} :
    Char.ofNat c.toNat = Char.ofNat d.toNat ↔ c = d := by
  have hvalue : ∀ b : UInt8, (Char.ofNat b.toNat).toNat = b.toNat := by
    intro b
    have hvalid : b.toNat.isValidChar := .inl (Nat.lt_trans b.toNat_lt (by decide))
    rw [Char.ofNat, dif_pos hvalid]
    rfl
  constructor
  · intro h
    have hnat := congrArg Char.toNat h
    rw [hvalue, hvalue] at hnat
    exact UInt8.toNat_inj.mp hnat
  · rintro rfl
    rfl

end Event

namespace Expectation

/-! ### The line of an event -/

/-- The text of an event as a line: the characters that clash with the layout are escaped. -/
def escape (text : String) : String :=
  if text = "#" then "\\#"
  else if text = "\n" then "\\n"
  else if text = "\r" then "\\r"
  else text

/-- The text is no escape. -/
def Unescaped (text : String) : Prop :=
  text ≠ "\\#" ∧ text ≠ "\\n" ∧ text ≠ "\\r"

/-- Texts that are no escapes are told apart by their escaped forms. -/
theorem escape_inj {s t : String} (hs : Unescaped s) (ht : Unescaped t)
    (h : escape s = escape t) : s = t := by
  obtain ⟨hs₁, hs₂, hs₃⟩ := hs
  obtain ⟨ht₁, ht₂, ht₃⟩ := ht
  unfold escape at h
  split_ifs at h <;> simp_all

/-- A number is its own line. -/
theorem escape_of_isNumeral {text : String} (h : Event.IsNumeral text) : escape text = text := by
  have hhash : text ≠ "#" := by
    rintro rfl
    exact h.not_mem (c := '#') rfl (by decide) (by decide)
  have hnewline : text ≠ "\n" := by
    rintro rfl
    exact h.not_mem (c := '\n') rfl (by decide) (by decide)
  have hreturn : text ≠ "\r" := by
    rintro rfl
    exact h.not_mem (c := '\r') rfl (by decide) (by decide)
  rw [escape, if_neg hhash, if_neg hnewline, if_neg hreturn]

/-- A number is no escape, since it has no backslash. -/
theorem unescaped_of_isNumeral {text : String} (h : Event.IsNumeral text) : Unescaped text := by
  have hslash : '\\' ∉ text.toList := h.not_mem rfl (by decide)
  refine ⟨?_, ?_, ?_⟩ <;> rintro rfl <;> exact hslash (by decide)

/-- No event is printed as an escape. -/
theorem unescaped_text (event : Event) : Unescaped event.text := by
  cases event with
  | int n => exact unescaped_of_isNumeral (Event.isNumeral_int n)
  | bool b => exact unescaped_of_isNumeral (Event.isNumeral_bool b)
  -- The text is a single character.
  | char c =>
    -- An escape has two characters.
    have hlength : (Event.char c).text.toList.length = 1 := by rw [Event.toList_char]; rfl
    refine ⟨?_, ?_, ?_⟩ <;> intro h <;> rw [h] at hlength <;> exact absurd hlength (by decide)

/-- The line of an event is its text, escaped. -/
theorem lineOf_eq_escape (event : Event) : lineOf event = escape event.text := by
  cases event with
  | int n => exact (escape_of_isNumeral (Event.isNumeral_int n)).symm
  | bool b => exact (escape_of_isNumeral (Event.isNumeral_bool b)).symm
  -- The three characters that are escaped are told by their bytes.
  | char c =>
    have hiff : ∀ d : UInt8, (Event.char c).text = (Event.char d).text ↔ c = d := by
      intro d
      rw [← String.toList_inj, Event.toList_char, Event.toList_char, List.singleton_inj,
        Event.ofNat_toNat_eq_iff]
    have hhash : (Event.char c).text = "#" ↔ c = 35 := hiff 35
    have hnewline : (Event.char c).text = "\n" ↔ c = 10 := hiff 10
    have hreturn : (Event.char c).text = "\r" ↔ c = 13 := hiff 13
    unfold lineOf escape
    split <;> simp_all

/-- The line of an event tells its text, and its text the line. -/
theorem lineOf_eq_iff {e e' : Event} : lineOf e = lineOf e' ↔ e.text = e'.text := by
  rw [lineOf_eq_escape, lineOf_eq_escape]
  constructor
  · exact escape_inj (unescaped_text e) (unescaped_text e')
  · exact congrArg escape

/-- The lines of events tell their texts. -/
theorem map_lineOf_eq_iff {es es' : List Event} :
    es.map lineOf = es'.map lineOf ↔ es.map Event.text = es'.map Event.text := by
  induction es generalizing es' with
  | nil => rw [List.map_nil, List.map_nil, List.nil_eq, List.nil_eq, List.map_eq_nil_iff,
      List.map_eq_nil_iff]
  | cons e es ih =>
    cases es' with
    | nil => simp
    | cons e' es' =>
      simp only [List.map_cons, List.cons.injEq]
      rw [lineOf_eq_iff, ih]

/-- A line that says an event: it is neither blank nor a remark nor an error line, and it is one
line. -/
structure Plain (line : List Char) : Prop where
  ne_nil : line ≠ []
  unbroken : ∀ c ∈ line, c ≠ '\n' ∧ c ≠ '\r'
  no_remark : line.head? ≠ some '#'
  no_error : ¬errorMark <+: line

/-- A number is a plain line. -/
theorem plain_of_isNumeral {text : String} (h : Event.IsNumeral text) : Plain text.toList := by
  refine ⟨h.1, fun c hc => ⟨?_, ?_⟩, fun hhead => ?_, fun hmark => ?_⟩
  · rintro rfl
    exact h.not_mem rfl (by decide) hc
  · rintro rfl
    exact h.not_mem rfl (by decide) hc
  · exact h.not_mem rfl (by decide) (List.mem_of_mem_head? hhead)
  · have hletter : 'e' ∈ errorMark := by decide
    exact h.not_mem rfl (by decide) (hmark.mem hletter)

/-- An escape is a plain line: it starts with a backslash, and is too short for an error line. -/
theorem plain_escaped {c : Char} (hnewline : c ≠ '\n') (hreturn : c ≠ '\r') : Plain ['\\', c] := by
  refine ⟨List.cons_ne_nil _ _, ?_, by simp, fun hmark => ?_⟩
  · exact List.forall_mem_cons.mpr ⟨by decide, List.forall_mem_singleton.mpr ⟨hnewline, hreturn⟩⟩
  · have hlength : errorMark.length ≤ 2 := hmark.length_le
    exact absurd hlength (by decide)

/-- The line of every event is plain. -/
theorem plain_lineOf (event : Event) : Plain (lineOf event).toList := by
  rw [lineOf_eq_escape]
  cases event with
  | int n =>
    rw [escape_of_isNumeral (Event.isNumeral_int n)]
    exact plain_of_isNumeral (Event.isNumeral_int n)
  | bool b =>
    rw [escape_of_isNumeral (Event.isNumeral_bool b)]
    exact plain_of_isNumeral (Event.isNumeral_bool b)
  | char c =>
    -- A character is escaped or it is none of those that would break the line.
    unfold escape
    split_ifs with hhash hnewline hreturn
    · exact plain_escaped (c := '#') (by decide) (by decide)
    · exact plain_escaped (c := 'n') (by decide) (by decide)
    · exact plain_escaped (c := 'r') (by decide) (by decide)
    · rw [← String.toList_inj, Event.toList_char] at hhash hnewline hreturn
      rw [Event.toList_char]
      refine ⟨List.cons_ne_nil _ _, List.forall_mem_singleton.mpr ⟨?_, ?_⟩, ?_, ?_⟩
      · exact fun h => hnewline (congrArg ([·]) h)
      · exact fun h => hreturn (congrArg ([·]) h)
      · exact fun h => hhash (congrArg ([·]) (Option.some.inj h))
      · intro h
        have hlength : errorMark.length ≤ 1 := h.length_le
        exact absurd hlength (by decide)

/-! ### What lines say -/

/-- A carriage return at the end of a line does not count. -/
theorem entry?_return (line : List Char) : entry? (line ++ ['\r']) = entry? line := by
  have hdrop : Text.dropEndWhile (· = '\r') (line ++ ['\r']) =
      Text.dropEndWhile (· = '\r') line :=
    List.rdropWhile_concat_pos _ _ _ rfl
  unfold entry?
  rw [hdrop]

/-- A plain line says an event. -/
theorem Plain.entry?_eq {line : List Char} (h : Plain line) :
    entry? line = some (.event (String.ofList line)) := by
  have hdrop : Text.dropEndWhile (· = '\r') line = line :=
    Text.dropEndWhile_of_forall fun c hc => decide_eq_false (h.unbroken c hc).2
  have hsays : ¬(line.isEmpty || line.head? = some '#') = true := by
    simp [h.ne_nil, h.no_remark]
  have hevent : ¬errorMark.isPrefixOf line = true := mt List.isPrefixOf_iff_prefix.mp h.no_error
  unfold entry?
  rw [hdrop, if_neg hsays, if_neg hevent]

/-- The line of an event says this event. -/
theorem entry?_lineOf (event : Event) :
    entry? (lineOf event).toList = some (.event (lineOf event)) := by
  rw [(plain_lineOf event).entry?_eq, String.ofList_toList]

/-- A line that says nothing: a blank line or a remark. -/
inductive Idle : List Char → Prop
  | blank : Idle []
  | remark {text : List Char} (h : '\n' ∉ text) : Idle ('#' :: text)

/-- An idle line says nothing, with or without a carriage return. -/
theorem Idle.entry?_eq_none {line : List Char} (h : Idle line) : entry? line = none := by
  cases h with
  | blank => rfl
  | @remark text h =>
    have hkept : Text.dropEndWhile (· = '\r') ('#' :: text) <+: '#' :: text :=
      List.rdropWhile_prefix _ _
    unfold entry?
    -- Without carriage returns at its end the line is empty or still a remark.
    rcases List.prefix_cons_iff.mp hkept with hnil | ⟨rest, hrest, -⟩
    · rw [hnil]
      rfl
    · rw [hrest]
      rfl

/-- An idle line is one line. -/
theorem Idle.newline_not_mem {line : List Char} (h : Idle line) : '\n' ∉ line := by
  cases h with
  | blank => exact List.not_mem_nil
  | remark h => exact List.not_mem_cons_of_ne_of_not_mem (by decide) h

/-- The line of a failure. -/
def errorLine (failure : Failure) : List Char :=
  errorMark ++ ' ' :: failure.kind.toList

/-- The name of a failure has no white space. -/
theorem isBlank_kind (failure : Failure) : ∀ c ∈ failure.kind.toList, Text.isBlank c = false := by
  have hall : failure.kind.toList.all (fun c => !Text.isBlank c) = true := by
    cases failure with
    | fault error span =>
      rw [Failure.kind]
      cases error <;> rw [RuntimeError.kind] <;> rfl
    | unreadable errors => rw [Failure.kind]; rfl
    | refused errors => rw [Failure.kind]; rfl
    | unfinished => rfl
  intro c hc
  simpa using List.all_eq_true.mp hall c hc

/-- The line of a failure says the name of the failure. -/
theorem entry?_errorLine (failure : Failure) :
    entry? (errorLine failure) = some (.error failure.kind) := by
  have hname := isBlank_kind failure
  have hdrop : Text.dropEndWhile (· = '\r') (errorLine failure) = errorLine failure := by
    refine Text.dropEndWhile_of_forall fun c hc => decide_eq_false ?_
    rintro rfl
    -- The line has no carriage return: neither the mark nor the space nor the name has one.
    rcases List.mem_append.mp hc with hmark | hrest
    · exact absurd hmark (by decide)
    · rcases List.mem_cons.mp hrest with hspace | hkind
      · exact absurd hspace (by decide)
      · exact absurd (hname _ hkind) (by decide)
  have hsays : ¬((errorLine failure).isEmpty || (errorLine failure).head? = some '#') = true :=
    Bool.false_ne_true
  have hmark : errorMark.isPrefixOf (errorLine failure) = true :=
    List.isPrefixOf_iff_prefix.mpr (List.prefix_append _ _)
  have hrest : (errorLine failure).drop errorMark.length = ' ' :: failure.kind.toList :=
    List.drop_left
  unfold entry?
  rw [hdrop, if_neg hsays, if_pos hmark, hrest, Text.trimmed_space hname, String.ofList_toList]

/-! ### Files -/

/-- The ways to end a line. -/
def lineEnds : List (List Char) :=
  [['\n'], ['\r', '\n']]

/-- The text is the lines in order, each with a line end of its own, which the last line of the file
may lack. Idle lines may stand anywhere. -/
inductive Written : List (List Char) → List Char → Prop
  | last (line : List Char) : Written [line] line
  | lastIdle {line : List Char} (hline : Idle line) : Written [] line
  | line {line ending text : List Char} {lines : List (List Char)} (hend : ending ∈ lineEnds)
    (h : Written lines text) : Written (line :: lines) (line ++ (ending ++ text))
  | idle {line ending text : List Char} {lines : List (List Char)} (hline : Idle line)
    (hend : ending ∈ lineEnds) (h : Written lines text) : Written lines (line ++ (ending ++ text))

/-- The first line of a text says what it says alone, and a line end may have a carriage return. -/
theorem entries_line {line ending : List Char} (h : '\n' ∉ line) (hend : ending ∈ lineEnds)
    (text : List Char) : (Text.split '\n' (line ++ (ending ++ text))).filterMap entry? =
      (line :: Text.split '\n' text).filterMap entry? := by
  simp only [lineEnds, List.mem_cons, List.not_mem_nil, or_false] at hend
  rcases hend with rfl | rfl
  · exact congrArg (List.filterMap entry?) (Text.split_append h text)
  · have hreturn : '\n' ∉ line ++ ['\r'] := by simpa using h
    have htext : line ++ (['\r', '\n'] ++ text) = (line ++ ['\r']) ++ '\n' :: text := by simp
    rw [htext, Text.split_append hreturn, List.filterMap_cons, List.filterMap_cons, entry?_return]

/-- A file says what its lines say. -/
theorem Written.entries {lines : List (List Char)} {text : List Char} (h : Written lines text)
    (hlines : ∀ line ∈ lines, '\n' ∉ line) :
    (Text.split '\n' text).filterMap entry? = lines.filterMap entry? := by
  induction h with
  | last line => rw [Text.split_of_not_mem (hlines line List.mem_cons_self)]
  | lastIdle hline =>
    rw [Text.split_of_not_mem hline.newline_not_mem, List.filterMap_cons_none hline.entry?_eq_none]
  | line hend _ ih =>
    obtain ⟨hline, hmore⟩ := List.forall_mem_cons.mp hlines
    rw [entries_line hline hend, List.filterMap_cons, List.filterMap_cons, ih hmore]
  | idle hline hend _ ih =>
    rw [entries_line hline.newline_not_mem hend, List.filterMap_cons_none hline.entry?_eq_none,
      ih hlines]

/-- The lines of an expectation file for the events and the failure. -/
def linesOf (events : List Event) (failure : Option Failure) : List (List Char) :=
  events.map (fun event => (lineOf event).toList) ++ (failure.map errorLine).toList

/-- No line of a file has a line end inside it. -/
theorem newline_not_mem_linesOf (events : List Event) (failure : Option Failure) :
    ∀ line ∈ linesOf events failure, '\n' ∉ line := by
  intro line hline hnewline
  rcases List.mem_append.mp hline with hevent | herror
  · obtain ⟨event, -, rfl⟩ := List.mem_map.mp hevent
    exact ((plain_lineOf event).unbroken _ hnewline).1 rfl
  · obtain ⟨failure, -, rfl⟩ := Option.map_eq_some_iff.mp (Option.mem_toList.mp herror)
    rcases List.mem_append.mp hnewline with hmark | hrest
    · exact absurd hmark (by decide)
    · rcases List.mem_cons.mp hrest with hspace | hkind
      · exact absurd hspace (by decide)
      · exact absurd (isBlank_kind failure _ hkind) (by decide)

/-- The lines of a file say the events and the failure. -/
theorem entries_linesOf (events : List Event) (failure : Option Failure) :
    (linesOf events failure).filterMap entry? =
      events.map (fun event => .event (lineOf event)) ++
        (failure.map fun f => .error f.kind).toList := by
  rw [linesOf, List.filterMap_append]
  congr 1
  · rw [List.filterMap_map, ← List.filterMap_eq_map]
    exact List.filterMap_congr fun event _ => entry?_lineOf event
  · cases failure with
    | none => rfl
    | some failure => exact List.filterMap_cons_some (entry?_errorLine failure)

/-- A file is read as the events and the failure that it is written from. -/
theorem Written.parse_eq {events : List Event} {failure : Option Failure} {text : List Char}
    (h : Written (linesOf events failure) text) :
    parse (String.ofList text) = ⟨events.map lineOf, failure.map Failure.kind⟩ := by
  rw [parse, String.toList_ofList, h.entries (newline_not_mem_linesOf events failure),
    entries_linesOf, ofEntries]
  cases failure <;> simp [List.filterMap_map]

end Expectation

namespace Conformance

open Expectation

/-- The failure of a run, if it fails. -/
def failure? : Except Failure Int64 → Option Failure
  | .ok _ => none
  | .error failure => some failure

/-- The expectation that a run gives has the lines of its events and the name of its failure. -/
theorem ofRun_eq (events : Array Event) (result : Except Failure Int64) :
    Expectation.ofRun events result =
      ⟨events.toList.map Expectation.lineOf, (failure? result).map Failure.kind⟩ := by
  cases result <;> rfl

/-- A case passes exactly if the run gives what the file says. -/
theorem verdict_eq_ok_iff {path source expected : String} {options : RunOptions} :
    verdict path source expected options = .ok () ↔
      (actual source options).1 = Expectation.parse expected := by
  rw [verdict]
  dsimp only
  split_ifs with h
  · exact ⟨fun _ => h, fun _ => rfl⟩
  · exact ⟨fun hok => (by cases hok), fun hsame => absurd hsame h⟩

/-- A case whose two files can be read is judged by what they say. -/
theorem runCase_eq {m : Type → Type} [Monad m] [LawfulMonad m] {disk : Disk m}
    {path source expected : String} {options : RunOptions}
    (hsource : disk.read path = pure (.ok source))
    (hbeside : disk.read (Path.withExtension path expectedExtension) = pure (.ok expected)) :
    runCase disk path options = pure (verdict path source expected options) := by
  simp only [runCase, hsource, hbeside, pure_bind]

/-- A file that is written from events and a failure is read as their lines and the name of the
failure. The lines tell the texts of the events. So a case passes with the file of its own run, and
with any other file exactly if that tells the same texts and the same name. -/
theorem file_states_run {events : List Event} {failure : Option Failure} {text : List Char}
    (h : Written (linesOf events failure) text) :
    Expectation.parse (String.ofList text) = ⟨events.map lineOf, failure.map Failure.kind⟩ ∧
    (∀ events' : List Event, events'.map lineOf = events.map lineOf ↔
      events'.map Event.text = events.map Event.text) ∧
    ∀ {m : Type → Type} [Monad m] [LawfulMonad m] (disk : Disk m) (path source : String)
      (options : RunOptions), disk.read path = pure (.ok source) →
      disk.read (Path.withExtension path expectedExtension) = pure (.ok (String.ofList text)) →
      let run := interpretSource source options Sink.recording #[]
      (events = run.2.toList → failure = failure? run.1 →
        runCase disk path options = pure (.ok ())) ∧
      ∃ verdict, runCase disk path options = pure verdict ∧
        (verdict = .ok () ↔ run.2.toList.map Event.text = events.map Event.text ∧
          (failure? run.1).map Failure.kind = failure.map Failure.kind) := by
  refine ⟨h.parse_eq, fun events' => map_lineOf_eq_iff, ?_⟩
  intro m _ _ disk path source options hsource hbeside run
  have hcase : runCase disk path options =
      pure (verdict path source (String.ofList text) options) := runCase_eq hsource hbeside
  have hverdict : verdict path source (String.ofList text) options = .ok () ↔
      run.2.toList.map Event.text = events.map Event.text ∧
        (failure? run.1).map Failure.kind = failure.map Failure.kind := by
    have hactual : (actual source options).1 = Expectation.ofRun run.2 run.1 := rfl
    rw [verdict_eq_ok_iff, h.parse_eq, hactual, ofRun_eq, Expectation.mk.injEq,
      map_lineOf_eq_iff]
  refine ⟨?_, _, hcase, hverdict⟩
  rintro rfl rfl
  rw [hcase, hverdict.mpr ⟨rfl, rfl⟩]

/-- A program that prints a character that has to be escaped, and fails. -/
def hashThenFault : String :=
  "int main() { print_char(35); int a[1]; return a[1]; }"

/-- Its run as a file, with both line ends, a remark and a blank line. -/
def hashThenFaultFile : List Char :=
  "# hash\r\n\\#\n\r\nerror: ArrayIndexOutOfRange".toList

/-- The program beside the file. -/
def hashThenFaultDisk : Disk Id where
  read path :=
    if path = "h.cpp" then .ok hashThenFault
    else if path = "h.expected" then .ok (String.ofList hashThenFaultFile)
    else .error .notFound
  isFile path := path = "h.cpp" || path = "h.expected"
  list _ := .ok ["h.cpp", "h.expected"]

/-- A case passes with a file of its run that has both line ends, a remark and an escape. -/
theorem file_states_run_hashThenFault :
    runCase hashThenFaultDisk "h.cpp" {} = pure (.ok ()) := by
  have hlines : linesOf (interpretSource hashThenFault {} Sink.recording #[]).2.toList
      (failure? (interpretSource hashThenFault {} Sink.recording #[]).1) =
        ["\\#".toList, "error: ArrayIndexOutOfRange".toList] := by decide +kernel
  have hlf : ['\n'] ∈ lineEnds := by decide
  have hcrlf : ['\r', '\n'] ∈ lineEnds := by decide
  have hremark : Idle "# hash".toList := .remark (by decide)
  have hwritten : Written (linesOf (interpretSource hashThenFault {} Sink.recording #[]).2.toList
      (failure? (interpretSource hashThenFault {} Sink.recording #[]).1)) hashThenFaultFile := by
    rw [hlines]
    exact .idle hremark hcrlf (.line hlf (.idle .blank hcrlf (.last _)))
  have hpath : Path.withExtension "h.cpp" expectedExtension = "h.expected" := by decide +kernel
  have hbeside : hashThenFaultDisk.read (Path.withExtension "h.cpp" expectedExtension) =
      pure (.ok (String.ofList hashThenFaultFile)) := by
    rw [hpath]
    rfl
  obtain ⟨-, -, hcases⟩ := file_states_run hwritten
  exact (hcases hashThenFaultDisk "h.cpp" hashThenFault {} rfl hbeside).1 rfl rfl

end Conformance

end SmallCpp
