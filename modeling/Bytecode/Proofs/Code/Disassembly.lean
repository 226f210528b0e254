/-
  The lines of a disassembly.

  A disassembly has a line for each step of the linear decoding.  A line starts with the offset of
  its step; then it goes on with the mnemonic, or with a comment if there is no instruction.  So the
  lines go through the code from its start to its end without gap or overlap, unless decoding fails
  on the way: then the last line says where and why.

  * `Tiles.head?_starts`, `Tiles.spans`, `Tiles.outcome`: the offsets at which steps start, from the
    first to the last;
  * `Style.framed`: painted text stands between two escape sequences, of which the first one tells
    its style; so nothing of it is trimmed (`Role.trimEnd_paint`);
  * `not_isErrorLine`: a line for an instruction cannot be taken for one that says what failed.
-/
import Bytecode.Proofs.ClassFile.Legible
import Bytecode.Proofs.Code.Linear
import Mathlib.Data.List.Nodup

namespace Bytecode

/-! ## Steps of the linear decoding -/

theorem DecodeError.at_injective {pc : Nat} {e e' : DecodeError} (h : e.at pc = e'.at pc) :
    e = e' := by
  cases e with
  | unknownOpcode tag =>
    cases e' with
    | unknownOpcode tag' => rw [(RunError.unsupportedOpcode.inj h).1]
    | truncated => cases h
  | truncated =>
    cases e' with
    | unknownOpcode tag' => cases h
    | truncated => rfl

namespace Decoded

variable {code : Octets} {pc : Nat} {steps : List (Nat × Except DecodeError Decoded × Nat)}

/-- The instruction at one offset ends at another. -/
def Spans (code : Octets) (start next : Nat) : Prop :=
  ∃ d, read.run (Cursor.place code start) = (.ok d, Cursor.place code next)

/-- There is no instruction at an offset, for this reason. -/
def FailsAt (code : Octets) (start : Nat) (e : DecodeError) : Prop :=
  ∃ c, read.run (Cursor.place code start) = (.error e, c)

theorem failsAt_of_fetch {e : DecodeError} (hpc : pc < code.length)
    (h : fetch code pc = .error (e.at pc)) : FailsAt code pc e := by
  obtain ⟨e', c, hread, he⟩ := run_read_of_fetch_error hpc h
  obtain rfl := DecodeError.at_injective he
  exact ⟨c, hread⟩

theorem lt_length_of_fetch {d : Decoded} {next : Nat} (h : fetch code pc = .ok (d, next)) :
    pc < code.length := by
  obtain ⟨op, -, hwhole, -, -⟩ := fetch_eq_ok_iff.1 h
  omega

theorem Tiles.head?_starts (h : Tiles code pc steps) :
    (steps.map (·.1)).head? = if pc < code.length then some pc else none := by
  cases h with
  | done => rw [if_neg (Nat.lt_irrefl _)]; rfl
  | step hfetch hrest => rw [if_pos (lt_length_of_fetch hfetch)]; rfl
  | fail hpc hfetch next => rw [if_pos hpc]; rfl

theorem Tiles.spans (h : Tiles code pc steps) {k start next : Nat}
    (hstart : (steps.map (·.1))[k]? = some start)
    (hnext : (steps.map (·.1))[k + 1]? = some next) : Spans code start next := by
  induction h generalizing k with
  | done => cases hstart
  | @step pc next' d rest hfetch hrest ih =>
    rw [List.map_cons, List.getElem?_cons_succ] at hnext
    cases k with
    | zero =>
      obtain rfl := Option.some.inj hstart
      -- The step behind the first one starts where the rest of the steps do.
      have hhead := hrest.head?_starts
      rw [List.head?_eq_getElem?, hnext] at hhead
      split at hhead
      · obtain rfl := Option.some.inj hhead
        exact ⟨d, run_read_of_fetch hfetch⟩
      · cases hhead
    | succ k =>
      rw [List.map_cons, List.getElem?_cons_succ] at hstart
      exact ih hstart hnext
  | fail => cases hnext

/-- Either no step fails and the last one ends the code, or the last one and no other fails. -/
theorem Tiles.outcome (h : Tiles code pc steps) :
    ((∀ step ∈ steps, step.2.1.isOk) ∧
      ∀ start, (steps.map (·.1)).getLast? = some start → Spans code start code.length) ∨
    ∃ front start e next, steps = front ++ [(start, .error e, next)] ∧
      (∀ step ∈ front, step.2.1.isOk) ∧ FailsAt code start e := by
  induction h with
  | done => exact .inl ⟨fun step hmem => (nomatch hmem), fun start hlast => (nomatch hlast)⟩
  | @step pc next d rest hfetch hrest ih =>
    rcases ih with ⟨hok, hlast⟩ | ⟨front, start, e, next', rfl, hok, hfails⟩
    · refine .inl ⟨List.forall_mem_cons.2 ⟨rfl, hok⟩, fun start hstart => ?_⟩
      cases hrest with
      | done =>
        obtain rfl := Option.some.inj hstart
        exact ⟨d, run_read_of_fetch hfetch⟩
      | step hfetch' hrest' => exact hlast start hstart
      | fail hpc hfetch' next' => exact hlast start hstart
    · exact .inr ⟨_ :: front, start, e, next', rfl, List.forall_mem_cons.2 ⟨rfl, hok⟩, hfails⟩
  | @fail pc e hpc hfetch next =>
    exact .inr ⟨[], pc, e, next, rfl, fun step hmem => (nomatch hmem), failsAt_of_fetch hpc hfetch⟩

end Decoded

/-! ## Text in columns and in colour -/

theorem Column.toList_pushn (text : String) (c : Char) (n : Nat) :
    (text.pushn c n).toList = text.toList ++ List.replicate n c := by
  induction n with
  | zero => exact (List.append_nil _).symm
  | succ n ih =>
    have hpush : text.pushn c (n + 1) = (text.pushn c n).push c := rfl
    rw [hpush, String.toList_push, ih, List.append_assoc, List.replicate_succ']

theorem Column.toList_alignLeft (width : Nat) (text : String) :
    (alignLeft width text).toList = text.toList ++ List.replicate (width - text.length) ' ' :=
  toList_pushn _ _ _

theorem Column.toList_alignRight (width : Nat) (text : String) :
    (alignRight width text).toList = List.replicate (width - text.length) ' ' ++ text.toList := by
  rw [alignRight, String.toList_append, toList_pushn]
  rfl

/-- Space is trimmed no further than to a character that is none. -/
theorem Column.trimEnd_append {front : String}
    (h : ∃ c ∈ front.toList.getLast?, isSpace c = false) (rest : String) :
    trimEnd (front ++ rest) = front ++ trimEnd rest := by
  obtain ⟨c, hc, hspace⟩ := h
  obtain ⟨cs, hcs⟩ := List.getLast?_eq_some_iff.1 hc
  have hstop : ∀ before : List Char, (before ++ front.toList.reverse).dropWhile isSpace =
      before.dropWhile isSpace ++ front.toList.reverse := by
    intro before
    rw [hcs, List.reverse_append, List.dropWhile_append]
    split
    · next hempty => rw [List.isEmpty_iff.1 hempty]; simp [hspace]
    · rfl
  rw [trimEnd, String.toList_append, List.reverse_append, hstop, List.reverse_append,
    List.reverse_reverse, String.ofList_append, String.ofList_toList]
  rfl

namespace Style

def all : List Style :=
  [false, true].flatMap fun bold => [false, true].flatMap fun underline =>
    [none, some .red, some .green, some .yellow, some .blue, some .purple, some .cyan].map
      fun colour => ⟨bold, underline, colour⟩

theorem mem_all (s : Style) : s ∈ all := by
  obtain ⟨bold, underline, colour⟩ := s
  cases bold <;> cases underline <;> rcases colour with _ | c <;> try cases c
  all_goals decide

theorem nodup_openings : (all.map opening).Nodup := by
  decide +kernel

/-- The first `m` of an opening is its last character. -/
theorem dropWhile_opening (s : Style) (cs : List Char) :
    (s.opening.toList ++ cs).dropWhile (· ≠ 'm') = 'm' :: cs := by
  have hall : ∀ s ∈ all, s.opening.toList = s.opening.toList.dropLast ++ ['m'] ∧
      s.opening.toList.dropLast.all (· ≠ 'm') = true := by decide +kernel
  obtain ⟨hlast, hfront⟩ := hall s s.mem_all
  rw [hlast, List.append_assoc, List.dropWhile_append_of_pos (List.all_eq_true.1 hfront)]
  rfl

/-- What is to be known about escape sequences: text in any style but the plain one stands between
    two of them; the first one tells the style, and the second one does not end in space. -/
structure Framed (opening : Style → String) (closing : String) : Prop where
  paint_eq : ∀ s ≠ plain, ∀ text, s.paint text = opening s ++ text ++ closing
  inj : ∀ {s s' : Style} {text text' : String},
    opening s ++ text = opening s' ++ text' → s = s' ∧ text = text'
  last : ∃ c ∈ closing.toList.getLast?, Column.isSpace c = false

theorem framed : Framed opening closing where
  paint_eq s hs text := by
    have hcodes : ∀ s ∈ all, s.codes = [] → s = plain := by decide +kernel
    exact if_neg fun hnil => hs (hcodes s s.mem_all hnil)
  inj {s s' text text'} h := by
    have hlist : s.opening.toList ++ text.toList = s'.opening.toList ++ text'.toList := by
      rw [← String.toList_append, h, String.toList_append]
    have htext := s.dropWhile_opening text.toList
    rw [hlist, dropWhile_opening] at htext
    rw [(List.cons.inj htext).2] at hlist
    have hopening : s.opening = s'.opening := String.toList_inj.1 (List.append_cancel_right hlist)
    exact ⟨List.inj_on_of_nodup_map nodup_openings s.mem_all s'.mem_all hopening,
      String.toList_inj.1 (List.cons.inj htext).2.symm⟩
  last := ⟨'m', rfl, rfl⟩

end Style

theorem Role.style_ne_plain (r : Role) : r.style ≠ .plain := by
  cases r <;> decide +kernel

theorem Role.trimEnd_paint (r : Role) (front text rest : String) :
    Column.trimEnd (front ++ r.paint text ++ rest) =
      front ++ r.paint text ++ Column.trimEnd rest := by
  obtain ⟨c, hc, hspace⟩ := Style.framed.last
  refine Column.trimEnd_append ⟨c, ?_, hspace⟩ rest
  rw [Role.paint, Style.framed.paint_eq _ r.style_ne_plain, ← String.append_assoc,
    String.toList_append]
  exact List.mem_getLast?_append_of_mem_getLast? hc

namespace Listing

/-! ## Lines -/

def errorLine (offset : Nat) (e : DecodeError) : String :=
  label offset ++ comment e.text

/-- The line is the one of a step that fails somewhere for some reason. -/
def IsErrorLine (line : String) : Prop :=
  ∃ offset e, line = errorLine offset e

variable {pool : Pool} {offset : Nat} {line : String}

theorem colon_notMem_offset (offset : Nat) :
    ':' ∉ (Column.alignRight 5 (toString offset)).toList := by
  rw [Column.toList_alignRight, Nat.toString_eq_ofList_toDigits, String.toList_ofList,
    List.mem_append]
  rintro (hspace | hdigit)
  · cases List.eq_of_mem_replicate hspace
  · exact absurd (Nat.isDigit_of_mem_toDigits (by decide) (by decide) hdigit) (by decide)

theorem dropWhile_label (offset : Nat) (text : String) :
    (label offset ++ text).toList.dropWhile (· ≠ ':') = ':' :: ' ' :: text.toList := by
  have hcolon : (label offset ++ text).toList =
      (Column.alignRight 5 (toString offset)).toList ++ ':' :: ' ' :: text.toList := by
    rw [label, String.toList_append, String.toList_append, List.append_assoc]
    rfl
  rw [hcolon, List.dropWhile_append_of_pos]
  · rfl
  · intro c hc
    have hne : c ≠ ':' := by
      rintro rfl
      exact colon_notMem_offset offset hc
    exact decide_eq_true hne

theorem label_append_inj {offset offset' : Nat} {text text' : String}
    (h : label offset ++ text = label offset' ++ text') : text = text' := by
  have hdrop := dropWhile_label offset text
  rw [h, dropWhile_label] at hdrop
  exact (String.toList_inj.1 (List.cons.inj (List.cons.inj hdrop).2).2).symm

theorem head_mnemonic_ne_slash :
    ∀ op ∈ Opcode.table, op.mnemonic.toList.head?.any (· ≠ '/') = true := by
  decide

/-- A painted mnemonic does not start as a comment does: the style is another one, or the first
    character is no slash. -/
theorem paint_ne_comment (i : Instruction) {name : String}
    (hname : name.toList.head?.any (· ≠ '/') = true) (rest text : String) :
    (opcodeRole i).paint (Column.alignLeft 14 name) ++ rest ≠ comment text := by
  intro heq
  rw [comment, Role.paint, Role.paint, Style.framed.paint_eq _ (Role.style_ne_plain _),
    Style.framed.paint_eq _ (Role.style_ne_plain _), String.append_assoc, String.append_assoc,
    String.append_assoc] at heq
  have hlist := congrArg String.toList (Style.framed.inj heq).2
  obtain ⟨c, hhead, hc⟩ := (Option.any_eq_true _ _).1 hname
  obtain ⟨cs, hcs⟩ := List.head?_eq_some_iff.1 hhead
  simp [Column.toList_alignLeft, hcs] at hlist
  simp [hlist.1] at hc

theorem exists_of_instructionLine {d : Decoded}
    (h : instructionLine pool offset (.ok d) = .ok line) :
    ∃ rest, line = label offset ++
      ((opcodeRole d.instruction).paint (Column.alignLeft 14 d.mnemonic) ++ rest) := by
  obtain ⟨operands, -, hline⟩ := Except.bind_eq_ok_iff.1 h
  obtain rfl := Except.pure_eq_ok_iff.1 hline
  refine ⟨Column.trimEnd (" " ++ operands), ?_⟩
  rw [← String.append_assoc, ← Role.trimEnd_paint, String.append_assoc, ← String.append_assoc]

/-- Every line starts with its label. -/
theorem label_of_instructionLine {step : Except DecodeError Decoded}
    (h : instructionLine pool offset step = .ok line) : ∃ text, line = label offset ++ text := by
  cases step with
  | error e => exact ⟨comment e.text, (Except.ok.inj h).symm⟩
  | ok d =>
    obtain ⟨rest, hline⟩ := exists_of_instructionLine h
    exact ⟨_, hline⟩

theorem not_isErrorLine {code : Octets} {d : Decoded} {next : Nat}
    (hfetch : fetch code offset = .ok (d, next))
    (h : instructionLine pool offset (.ok d) = .ok line) : ¬ IsErrorLine line := by
  obtain ⟨rest, rfl⟩ := exists_of_instructionLine h
  obtain ⟨op, hop, -, rfl, -⟩ := fetch_eq_ok_iff.1 hfetch
  rintro ⟨offset', e, heq⟩
  exact paint_ne_comment _ (head_mnemonic_ne_slash op (Opcode.mem_of_at? hop)) _ _
    (label_append_inj heq)

/-! ## All lines -/

open Decoded (starts Spans FailsAt linear_tiles fetch_of_mem_linear)

theorem not_isErrorLine_of_mem {code : Octets}
    {steps : List (Nat × Except DecodeError Decoded × Nat)} {lines : List String}
    (hsub : steps ⊆ Decoded.linear code)
    (hok : ∀ step ∈ steps, step.2.1.isOk)
    (hlines : steps.mapM (fun step => instructionLine pool step.1 step.2.1) = .ok lines) :
    ∀ line ∈ lines, ¬ IsErrorLine line := by
  intro line hline
  obtain ⟨⟨start, outcome, next⟩, hmem, hstep⟩ := Except.exists_of_mem_mapM hlines hline
  obtain ⟨d, rfl⟩ := Except.isOk_iff.1 (hok _ hmem)
  exact not_isErrorLine (fetch_of_mem_linear (hsub hmem)).1 hstep

/-- **A disassembly tiles the code.**  If no constant is an empty text, any code has a disassembly.
    It has a line for each step of decoding, which starts with the offset of the step.  The first
    step starts at 0, and each one where the instruction before it ends.  Either the last
    instruction ends the code and no line is an error line, or the last line is the one for the
    first offset at which decoding fails, and no other is an error line. -/
theorem disassemble_tiles (pool : Pool) (h : pool.NoEmptyText) (code : Octets) :
    ∃ lines : List String, disassemble pool code = .ok lines ∧
      lines.length = (starts code).length ∧
      (∀ (k start : Nat) (line : String), (starts code)[k]? = some start → lines[k]? = some line →
        ∃ text, line = label start ++ text) ∧
      (starts code)[0]? = (if code = [] then none else some 0) ∧
      (∀ k start next : Nat, (starts code)[k]? = some start → (starts code)[k + 1]? = some next →
        Spans code start next) ∧
      ((∀ start, (starts code).getLast? = some start → Spans code start code.length) ∧
          (∀ line ∈ lines, ¬ IsErrorLine line) ∨
        ∃ front start e, lines = front ++ [errorLine start e] ∧
          (starts code).getLast? = some start ∧ FailsAt code start e ∧
          ∀ line ∈ front, ¬ IsErrorLine line) := by
  have htiles := linear_tiles code
  obtain ⟨lines, hlines⟩ := Except.isOk_iff.1 (disassemble_isOk h code)
  refine ⟨lines, hlines, ?_, ?_, ?_, fun k start next => htiles.spans, ?_⟩
  · rw [Except.length_of_mapM hlines, starts, List.length_map]
  · intro k start line hstart hline
    rw [starts, List.getElem?_map] at hstart
    obtain ⟨step, hstep, rfl⟩ := Option.map_eq_some_iff.1 hstart
    obtain ⟨line', hline', htext⟩ := Except.getElem?_of_mapM hlines hstep
    obtain rfl := Option.some.inj (hline.symm.trans hline')
    exact label_of_instructionLine htext
  · rw [← List.head?_eq_getElem?, starts, htiles.head?_starts]
    cases code with
    | nil => rfl
    | cons b bs => rfl
  · rcases htiles.outcome with ⟨hok, hlast⟩ | ⟨front, start, e, next, hsteps, hok, hfails⟩
    · exact .inl ⟨hlast, not_isErrorLine_of_mem (List.Subset.refl _) hok hlines⟩
    · have hsub : front ⊆ Decoded.linear code := by
        rw [hsteps]
        exact List.subset_append_left _ _
      have hlast : (starts code).getLast? = some start := by
        rw [starts, hsteps, List.map_append]
        exact List.getLast?_concat
      rw [disassemble, hsteps, List.mapM_append] at hlines
      obtain ⟨lines', hfront, hlines⟩ := Except.bind_eq_ok_iff.1 hlines
      obtain rfl := Except.ok.inj hlines
      exact .inr ⟨lines', start, e, rfl, hlast, hfails, not_isErrorLine_of_mem hsub hok hfront⟩

/-- Code that loads a constant and calls a method, neither of which its pool has, and breaks off
    within the instruction at offset 5. -/
def breakingOff : Octets := [0x12, 77, 0xb8, 0, 1, 0x11, 0]

/-- The disassembly has a line for each of the two instructions and one for where the code breaks
    off. -/
theorem disassemble_tiles_breakingOff :
    Pool.NoEmptyText ⟨[.classRef 1]⟩ ∧
      ∃ lines, disassemble ⟨[.classRef 1]⟩ breakingOff = .ok lines ∧ lines.length = 3 ∧
        lines.getLast? = some (errorLine 5 .truncated) := by
  have hpool : Pool.NoEmptyText ⟨[.classRef 1]⟩ := by decide +kernel
  have hstarts : starts breakingOff = [0, 2, 5] := by decide +kernel
  have hfail : (Decoded.read.run (Cursor.place breakingOff 5)).1 = .error .truncated := rfl
  obtain ⟨lines, hlines, hlen, -, -, -, hend⟩ := disassemble_tiles _ hpool breakingOff
  rw [hstarts] at hlen hend
  refine ⟨hpool, lines, hlines, hlen, ?_⟩
  rcases hend with ⟨hlast, -⟩ | ⟨front, start, e, rfl, hstart, ⟨c, hread⟩, -⟩
  · obtain ⟨d, hread⟩ := hlast 5 rfl
    rw [hread] at hfail
    cases hfail
  · obtain rfl : 5 = start := Option.some.inj hstart
    rw [hread] at hfail
    obtain rfl := Except.error.inj hfail
    exact List.getLast?_concat

end Listing

end Bytecode
