/-
  Readers and the grammars they recognize.

  A grammar says which strings of octets stand for which values.  `r.Recognizes G` says all that
  the successes of a reader `r` have to do with `G`: at any cursor, `r` gives `a` exactly if what is
  left starts with a string of `G` for `a`, and it stops behind that string.  Nothing before the
  cursor and nothing behind the string has a say in it.

  * `Recognizes.pure`, `bind`, `map`, `withError` and `congr` follow the ways in which readers are
    put together, `recognizes_take` and `recognizes_number` are the single steps;
  * `Written write Fits` is the grammar of a format with one string for each value that fits it;
    `Recognizes.written_map` carries it over to another type, `Recognizes.table` to counted lists.
-/
import Bytecode.Octets.Reader

namespace Bytecode

/-- Which strings of octets stand for which values. -/
abbrev Grammar (α : Type) := Octets → α → Prop

/-- The values that fit a format, each with the one string that is written for it. -/
def Written {α : Type} (write : α → Octets) (Fits : α → Prop) : Grammar α :=
  fun bs a => Fits a ∧ bs = write a

namespace Reader

variable {ε δ α β : Type}

/-- A reader gives `a` exactly where a string for `a` lies ahead, and it moves past that string. -/
def Recognizes (r : Reader ε α) (G : Grammar α) : Prop :=
  ∀ (c : Cursor) (a : α) (c' : Cursor),
    r.run c = (.ok a, c') ↔ ∃ bs, G bs a ∧ bs <+: c.rest ∧ c' = c.advance bs.length

/-! ## Ways of putting readers together -/

theorem Recognizes.congr {r : Reader ε α} {G H : Grammar α} (h : r.Recognizes G)
    (hGH : ∀ bs a, G bs a ↔ H bs a) : r.Recognizes H := by
  intro c a c'
  rw [h c a c']
  simp only [hGH]

theorem run_bind_eq_ok {r : Reader ε α} {k : α → Reader ε β} {c c'' : Cursor} {b : β} :
    (r >>= k).run c = (.ok b, c'') ↔
      ∃ a c', r.run c = (.ok a, c') ∧ (k a).run c' = (.ok b, c'') := by
  rw [run_bind]
  rcases r.run c with ⟨⟨e⟩ | ⟨a⟩, c'⟩
  · simp
  · constructor
    · intro h; exact ⟨a, c', rfl, h⟩
    · rintro ⟨a', d, h, hk⟩
      obtain ⟨ha, rfl⟩ := Prod.mk.inj h
      obtain rfl := Except.ok.inj ha
      exact hk

theorem run_withError (f : ε → δ) (r : Reader ε α) (c : Cursor) :
    (r.withError f).run c =
      match r.run c with
      | (.ok a, c') => (.ok a, c')
      | (.error e, c') => (.error (f e), c') := rfl

theorem run_withError_eq_ok {r : Reader ε α} {f : ε → δ} {c c' : Cursor} {a : α} :
    (r.withError f).run c = (.ok a, c') ↔ r.run c = (.ok a, c') := by
  simp only [Reader.withError, Reader.run]
  rcases r c with ⟨⟨e⟩ | ⟨b⟩, d⟩ <;> simp

theorem append_prefix_iff {as bs cs : Octets} :
    as ++ bs <+: cs ↔ as <+: cs ∧ bs <+: cs.drop as.length := by
  constructor
  · rintro ⟨t, rfl⟩
    exact ⟨⟨bs ++ t, by simp⟩, ⟨t, by simp⟩⟩
  · rintro ⟨⟨t, rfl⟩, h⟩
    rw [List.drop_left] at h
    exact (List.prefix_append_right_inj as).2 h

theorem advance_advance (c : Cursor) (m n : Nat) :
    (c.advance m).advance n = c.advance (m + n) := by
  simp [Cursor.ext_iff, Nat.add_assoc]

theorem Recognizes.pure (a : α) :
    (Pure.pure a : Reader ε α).Recognizes fun bs b => bs = [] ∧ b = a := by
  intro c b c'
  simp only [run_pure, Prod.mk.injEq, Except.ok.injEq]
  constructor
  · rintro ⟨rfl, rfl⟩
    exact ⟨[], ⟨rfl, rfl⟩, List.nil_prefix, by simp [Cursor.ext_iff]⟩
  · rintro ⟨_, ⟨rfl, rfl⟩, -, rfl⟩
    exact ⟨rfl, by simp [Cursor.ext_iff]⟩

/-- One reader after another: the strings of the second stand behind those of the first. -/
theorem Recognizes.bind {r : Reader ε α} {k : α → Reader ε β} {G : Grammar α}
    {H : α → Grammar β} (hr : r.Recognizes G) (hk : ∀ a, (k a).Recognizes (H a)) :
    (r >>= k).Recognizes fun bs b => ∃ as a bs', G as a ∧ bs = as ++ bs' ∧ H a bs' b := by
  intro c b c''
  rw [run_bind_eq_ok]
  constructor
  · rintro ⟨a, c', hra, hka⟩
    obtain ⟨as, hG, hpre, rfl⟩ := (hr c a c').1 hra
    obtain ⟨bs, hH, hpre', rfl⟩ := (hk a _ b c'').1 hka
    refine ⟨as ++ bs, ⟨as, a, bs, hG, rfl, hH⟩, append_prefix_iff.2 ⟨hpre, hpre'⟩, ?_⟩
    rw [advance_advance, List.length_append]
  · rintro ⟨_, ⟨as, a, bs, hG, rfl, hH⟩, hpre, rfl⟩
    obtain ⟨hpre, hpre'⟩ := append_prefix_iff.1 hpre
    refine ⟨a, c.advance as.length, (hr _ _ _).2 ⟨as, hG, hpre, rfl⟩, (hk a _ _ _).2 ?_⟩
    exact ⟨bs, hH, hpre', by rw [advance_advance, List.length_append]⟩

theorem Recognizes.map {r : Reader ε α} {G : Grammar α} (h : r.Recognizes G) (f : α → β) :
    (f <$> r).Recognizes fun bs b => ∃ a, G bs a ∧ b = f a := by
  refine (h.bind fun a => Recognizes.pure (f a)).congr fun bs b => ?_
  constructor
  · rintro ⟨as, a, _, hG, rfl, rfl, rfl⟩
    exact ⟨a, by simpa using hG, rfl⟩
  · rintro ⟨a, hG, rfl⟩
    exact ⟨bs, a, [], hG, by simp, rfl, rfl⟩

theorem Recognizes.withError {r : Reader ε α} {G : Grammar α} (h : r.Recognizes G) (f : ε → δ) :
    (r.withError f).Recognizes G := by
  intro c a c'
  rw [run_withError_eq_ok, h c a c']

theorem recognizes_fail (e : ε) : (fail e : Reader ε α).Recognizes fun _ _ => False := by
  intro c a c'
  simp [fail, run]

/-! ## Single steps -/

theorem recognizes_take (n : Nat) : (take n).Recognizes fun bs a => bs.length = n ∧ a = bs := by
  intro c a c'
  change c.take n = (.ok a, c') ↔ _
  rw [Cursor.take, Cursor.peek_eq]
  by_cases h : c.remaining < n
  · rw [if_pos h]
    constructor
    · intro h'; simp at h'
    · rintro ⟨bs, ⟨rfl, -⟩, hpre, -⟩
      exact absurd hpre.length_le (by rw [Cursor.remaining] at h; omega)
  · rw [if_neg h]
    have hlen : (c.rest.take n).length = n := by
      rw [Cursor.remaining] at h; rw [List.length_take]; omega
    constructor
    · intro h'
      obtain ⟨ha, rfl⟩ := Prod.mk.inj h'
      obtain rfl := Except.ok.inj ha
      exact ⟨_, ⟨hlen, rfl⟩, List.take_prefix _ _, by rw [hlen]⟩
    · rintro ⟨bs, ⟨rfl, rfl⟩, hpre, rfl⟩
      rw [← List.prefix_iff_eq_take.1 hpre]

theorem recognizes_number (w : Nat) :
    (number w).Recognizes (Written (BigEndian.encode w) (· < BigEndian.range w)) := by
  refine ((recognizes_take w).map BigEndian.decode).congr fun bs n => ?_
  constructor
  · rintro ⟨_, ⟨rfl, rfl⟩, rfl⟩
    exact ⟨BigEndian.decode_lt _, (BigEndian.encode_decode _).symm⟩
  · rintro ⟨hn, rfl⟩
    exact ⟨_, ⟨BigEndian.length_encode w n, rfl⟩,
      by rw [BigEndian.decode_encode, Nat.mod_eq_of_lt hn]⟩

/-! ## Formats with one string for each value -/

/-- If `f` and `g` are inverse on what fits, a value of the other type is written by way of `g`. -/
theorem Recognizes.written_map {r : Reader ε α} {write : α → Octets} {Fits : α → Prop}
    (h : r.Recognizes (Written write Fits)) {f : α → β} {g : β → α} {Fits' : β → Prop}
    (hg : ∀ b, Fits' b → Fits (g b) ∧ f (g b) = b) (hf : ∀ a, Fits a → Fits' (f a) ∧ g (f a) = a) :
    (f <$> r).Recognizes (Written (fun b => write (g b)) Fits') := by
  refine (h.map f).congr fun bs b => ?_
  constructor
  · rintro ⟨a, ⟨ha, rfl⟩, rfl⟩
    obtain ⟨hfa, hgf⟩ := hf a ha
    exact ⟨hfa, congrArg write hgf.symm⟩
  · rintro ⟨hb, rfl⟩
    exact ⟨g b, ⟨(hg b hb).1, rfl⟩, (hg b hb).2.symm⟩

/-- Behind the string that is written for a value comes what is read next. -/
theorem Recognizes.seq {r : Reader ε α} {k : α → Reader ε β} {write : α → Octets}
    {Fits : α → Prop} {H : α → Grammar β} (hr : r.Recognizes (Written write Fits))
    (hk : ∀ a, (k a).Recognizes (H a)) :
    (r >>= k).Recognizes fun bs b => ∃ a bs', Fits a ∧ bs = write a ++ bs' ∧ H a bs' b := by
  refine (hr.bind hk).congr fun bs b => ?_
  constructor
  · rintro ⟨_, a, bs', ⟨ha, rfl⟩, rfl, hb⟩
    exact ⟨a, bs', ha, rfl, hb⟩
  · rintro ⟨a, bs', ha, rfl, hb⟩
    exact ⟨_, a, bs', ⟨ha, rfl⟩, rfl, hb⟩

theorem recognizes_index : index.Recognizes (Written (BigEndian.encode 2) (· < 65536)) :=
  recognizes_number 2

theorem recognizes_u8 : u8.Recognizes (Written (fun b => [b]) fun _ => True) := by
  have h : u8.Recognizes (Written (fun b => BigEndian.encode 1 b.toNat) fun _ => True) :=
    (recognizes_number 1).written_map (fun b _ => ⟨b.toNat_lt, UInt8.ofNat_toNat⟩)
      fun _ hn => ⟨trivial, UInt8.toNat_ofNat_of_lt' hn⟩
  have hone : ∀ b : UInt8, BigEndian.encode 1 b.toNat = [b] := fun b => by
    simp [BigEndian.encode]
  simpa only [hone] using h

theorem recognizes_u16 :
    u16.Recognizes (Written (fun n => BigEndian.encode 2 n.toNat) fun _ => True) :=
  (recognizes_number 2).written_map (fun n _ => ⟨n.toNat_lt, UInt16.ofNat_toNat⟩)
    fun _ hn => ⟨trivial, UInt16.toNat_ofNat_of_lt' hn⟩

theorem recognizes_u32 :
    u32.Recognizes (Written (fun n => BigEndian.encode 4 n.toNat) fun _ => True) :=
  (recognizes_number 4).written_map (fun n _ => ⟨n.toNat_lt, UInt32.ofNat_toNat⟩)
    fun _ hn => ⟨trivial, UInt32.toNat_ofNat_of_lt' hn⟩

theorem recognizes_i32 :
    i32.Recognizes (Written (fun n => BigEndian.encode 4 n.toUInt32.toNat) fun _ => True) :=
  recognizes_u32.written_map (fun n _ => ⟨trivial, n.toInt32_toUInt32⟩)
    fun n _ => ⟨trivial, n.toUInt32_toInt32⟩

theorem Recognizes.many {r : Reader ε α} {write : α → Octets} {Fits : α → Prop}
    (h : r.Recognizes (Written write Fits)) (n : Nat) :
    (many n r).Recognizes fun bs as =>
      as.length = n ∧ (∀ a ∈ as, Fits a) ∧ bs = as.flatMap write := by
  induction n with
  | zero =>
    refine (Recognizes.pure (ε := ε) ([] : List α)).congr fun bs as => ?_
    constructor
    · rintro ⟨rfl, rfl⟩; simp
    · rintro ⟨has, -, rfl⟩
      obtain rfl := List.length_eq_zero_iff.1 has
      exact ⟨rfl, rfl⟩
  | succ n ih =>
    have hdo : (do let a ← r; let as ← Reader.many n r; Pure.pure (a :: as)).Recognizes
        fun bs as => as.length = n + 1 ∧ (∀ a ∈ as, Fits a) ∧ bs = as.flatMap write := by
      refine (h.seq fun a => ih.bind fun as => Recognizes.pure (a :: as)).congr fun bs as => ?_
      constructor
      · rintro ⟨a, _, ha, rfl, _, as, _, ⟨rfl, has, rfl⟩, rfl, rfl, rfl⟩
        exact ⟨by simp, by simpa using ⟨ha, has⟩, by simp⟩
      · rintro ⟨hlen, hall, rfl⟩
        obtain ⟨a, as, rfl⟩ := List.exists_cons_of_length_eq_add_one hlen
        obtain ⟨ha, has⟩ := List.forall_mem_cons.1 hall
        exact ⟨a, _, ha, List.flatMap_cons, _, as, [], ⟨by simpa using hlen, has, rfl⟩, by simp,
          rfl, rfl⟩
    intro c as c'
    rw [run_many_succ]
    exact hdo c as c'

/-- A table is the number of its items and then the items. -/
theorem Recognizes.table {count : Reader ε Nat} {r : Reader ε α} {write : α → Octets}
    {Fits : α → Prop} (hc : count.Recognizes (Written (BigEndian.encode 2) (· < 65536)))
    (h : r.Recognizes (Written write Fits)) :
    (count >>= fun n => Reader.many n r).Recognizes
      (Written (fun as => BigEndian.encode 2 as.length ++ as.flatMap write)
        fun as => as.length < 65536 ∧ ∀ a ∈ as, Fits a) := by
  refine (hc.seq fun n => h.many n).congr fun bs as => ?_
  constructor
  · rintro ⟨n, _, hn, rfl, rfl, has, rfl⟩
    exact ⟨⟨hn, has⟩, rfl⟩
  · rintro ⟨⟨hn, has⟩, rfl⟩
    exact ⟨_, _, hn, rfl, rfl, has, rfl⟩

end Reader

end Bytecode
