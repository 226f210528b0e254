/-
  Readers that find out for themselves where what they read ends.

  `r.Delimits short bs a` says what the octets `bs` have to do with the value `a`: where they lie
  ahead, `r` gives `a` and stops behind them, whatever follows; and where the input ends within
  them, `r` fails for want of octets and does not ask for more than are missing.  `short k` is the
  error that says that `k` octets are missing.

  A reader is `SelfDelimiting` if everything that it gives is delimited by the octets it was read
  from.  `SelfDelimiting.pure`, `bind`, `map`, `withError` and `many` follow the ways in which
  readers are put together, `selfDelimiting_take` is the single step.
-/
import Bytecode.Proofs.Octets.Grammar

namespace Bytecode.Reader

variable {ε δ α β : Type} {short : Nat → ε}

/-- The octets `bs` are read as `a`, and if the input ends within them, that is what is reported. -/
structure Delimits (r : Reader ε α) (short : Nat → ε) (bs : Octets) (a : α) : Prop where
  whole : ∀ c : Cursor, bs <+: c.rest → r.run c = (.ok a, c.advance bs.length)
  cut : ∀ c : Cursor, c.rest <+: bs → c.remaining < bs.length →
    ∃ k c', r.run c = (.error (short k), c') ∧ 1 ≤ k ∧ k ≤ bs.length - c.remaining

/-- Whatever the reader gives is delimited by octets that lie ahead. -/
def SelfDelimiting (r : Reader ε α) (short : Nat → ε) : Prop :=
  ∀ (c : Cursor) (a : α) (c' : Cursor), r.run c = (.ok a, c') →
    ∃ bs, bs <+: c.rest ∧ r.Delimits short bs a

/-! ## One value -/

theorem Delimits.pure (a : α) : (Pure.pure a : Reader ε α).Delimits short [] a where
  whole c _ := by simp [Cursor.ext_iff]
  cut c _ h := absurd h (Nat.not_lt_zero _)

theorem delimits_take (bs : Octets) :
    (take bs.length).Delimits ReadError.incomplete bs bs where
  whole c h := (recognizes_take bs.length c bs _).2 ⟨bs, ⟨rfl, rfl⟩, h, rfl⟩
  cut c _ h := by
    refine ⟨bs.length - c.remaining, c, ?_, by omega, Nat.le_refl _⟩
    change c.take bs.length = _
    rw [Cursor.take, Cursor.peek_eq, if_pos h]

/-- One value after another: the input ends within the octets of the first, or behind them and
    within those of the second. -/
theorem Delimits.bind {r : Reader ε α} {k : α → Reader ε β} {as bs : Octets} {a : α} {b : β}
    (hr : r.Delimits short as a) (hk : (k a).Delimits short bs b) :
    (r >>= k).Delimits short (as ++ bs) b where
  whole c h := by
    obtain ⟨has, hbs⟩ := append_prefix_iff.1 h
    rw [run_bind_ok (hr.whole c has), hk.whole _ hbs, advance_advance, List.length_append]
  cut c h hlt := by
    rw [List.length_append] at hlt
    have hrest : c.rest.length = c.remaining := rfl
    rcases Nat.lt_or_ge c.remaining as.length with hshort | hlong
    · have has : c.rest <+: as :=
        List.prefix_of_prefix_length_le h (List.prefix_append as bs) (Nat.le_of_lt hshort)
      obtain ⟨n, c', hrun, hpos, hle⟩ := hr.cut c has hshort
      exact ⟨n, c', run_bind_error hrun k, hpos, by rw [List.length_append]; omega⟩
    · have has : as <+: c.rest :=
        List.prefix_of_prefix_length_le (List.prefix_append as bs) h hlong
      obtain ⟨rest, heq⟩ := has
      have hbs : (c.advance as.length).rest <+: bs := by
        rw [Cursor.rest_advance, ← heq, List.drop_left]
        rw [← heq] at h
        exact (List.prefix_append_right_inj as).1 h
      have hremaining : (c.advance as.length).remaining = c.remaining - as.length := by
        rw [Cursor.remaining, Cursor.rest_advance, List.length_drop, hrest]
      obtain ⟨n, c', hrun, hpos, hle⟩ := hk.cut (c.advance as.length) hbs (by omega)
      refine ⟨n, c', ?_, hpos, by rw [List.length_append]; omega⟩
      rw [run_bind_ok (hr.whole c ⟨rest, heq⟩), hrun]

theorem Delimits.withError {r : Reader ε α} {bs : Octets} {a : α} (h : r.Delimits short bs a)
    (f : ε → δ) : (r.withError f).Delimits (fun k => f (short k)) bs a where
  whole c hbs := by
    have hrun : r c = _ := h.whole c hbs
    simp only [run, Reader.withError, hrun]
  cut c hbs hlt := by
    obtain ⟨k, c', hrun, hk⟩ := h.cut c hbs hlt
    have hrun : r c = _ := hrun
    exact ⟨k, c', by simp only [run, Reader.withError, hrun], hk⟩

/-! ## All that a reader gives -/

theorem SelfDelimiting.pure (a : α) : (Pure.pure a : Reader ε α).SelfDelimiting short := by
  intro c b c' h
  obtain rfl := Except.ok.inj (Prod.mk.inj h).1
  exact ⟨[], List.nil_prefix, .pure a⟩

theorem selfDelimiting_fail (e : ε) : (fail e : Reader ε α).SelfDelimiting short := by
  intro c a c' h
  cases (Prod.mk.inj h).1

theorem selfDelimiting_take (n : Nat) : (take n).SelfDelimiting ReadError.incomplete := by
  intro c a c' h
  obtain ⟨bs, ⟨rfl, rfl⟩, hpre, -⟩ := (recognizes_take n c a c').1 h
  exact ⟨a, hpre, delimits_take a⟩

theorem SelfDelimiting.bind {r : Reader ε α} {k : α → Reader ε β} (hr : r.SelfDelimiting short)
    (hk : ∀ a, (k a).SelfDelimiting short) : (r >>= k).SelfDelimiting short := by
  intro c b c'' h
  obtain ⟨a, c', hra, hka⟩ := run_bind_eq_ok.1 h
  obtain ⟨as, has, hr⟩ := hr c a c' hra
  obtain rfl : c.advance as.length = c' := (Prod.mk.inj ((hr.whole c has).symm.trans hra)).2
  obtain ⟨bs, hbs, hk⟩ := hk a _ b c'' hka
  exact ⟨as ++ bs, append_prefix_iff.2 ⟨has, hbs⟩, hr.bind hk⟩

theorem SelfDelimiting.map {r : Reader ε α} (h : r.SelfDelimiting short) (f : α → β) :
    (f <$> r).SelfDelimiting short :=
  h.bind fun a => .pure (f a)

theorem SelfDelimiting.withError {r : Reader ε α} (h : r.SelfDelimiting short) (f : ε → δ) :
    (r.withError f).SelfDelimiting fun k => f (short k) := by
  intro c a c' hrun
  obtain ⟨bs, hbs, hr⟩ := h c a c' (run_withError_eq_ok.1 hrun)
  exact ⟨bs, hbs, hr.withError f⟩

/-- A counted list is cut within one of its items. -/
theorem SelfDelimiting.many {r : Reader ε α} (h : r.SelfDelimiting short) (n : Nat) :
    (many n r).SelfDelimiting short := by
  induction n with
  | zero => exact .pure (ε := ε) ([] : List α)
  | succ n ih =>
    rw [many_succ]
    exact h.bind fun a => ih.bind fun as => .pure (a :: as)

theorem selfDelimiting_number (w : Nat) : (number w).SelfDelimiting ReadError.incomplete :=
  (selfDelimiting_take w).map BigEndian.decode

theorem selfDelimiting_index : index.SelfDelimiting ReadError.incomplete :=
  selfDelimiting_number 2

theorem selfDelimiting_u8 : u8.SelfDelimiting ReadError.incomplete :=
  (selfDelimiting_number 1).map UInt8.ofNat

theorem selfDelimiting_u16 : u16.SelfDelimiting ReadError.incomplete :=
  (selfDelimiting_number 2).map UInt16.ofNat

theorem selfDelimiting_u32 : u32.SelfDelimiting ReadError.incomplete :=
  (selfDelimiting_number 4).map UInt32.ofNat

theorem selfDelimiting_i32 : i32.SelfDelimiting ReadError.incomplete :=
  selfDelimiting_u32.map UInt32.toInt32

end Bytecode.Reader
