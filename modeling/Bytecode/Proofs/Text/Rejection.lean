/-
  Why octets are refused as modified UTF-8.

  The scanner refuses an octet as soon as it comes to it, so the octets up to there settle the
  matter: whatever else follows, the same octet is refused.  The scanner looks at one octet ahead
  only behind `ed`, where it tells a surrogate pair from a character of three octets, and it takes
  that octet in any case.  What is found at the end of the scan is blamed on the first octet, and
  this is not settled before the end.

  * `char_of_ed`: looking ahead behind `ed` is as good as looking back.
-/
import Bytecode.ClassFile.FormatError
import Bytecode.Proofs.Text.Range

namespace Bytecode.ModifiedUtf8

variable {α β : Type}

/-! ## Settled outcomes -/

/-- The first `n` octets of `bs` settle what `f` makes of them. -/
def SettledBy (n : Nat) (f : Octets → β) (bs : Octets) : Prop :=
  ∀ bs', bs.take n <+: bs' → f bs' = f bs

theorem SettledBy.mono {m n : Nat} {f : Octets → β} {bs : Octets} (h : SettledBy m f bs)
    (hmn : m ≤ n) : SettledBy n f bs := by
  intro bs' hpre
  exact h bs' ((List.take_prefix_take_left hmn).trans hpre)

theorem SettledBy.cons {n : Nat} {f : Octets → β} {b : UInt8} {bs : Octets}
    (h : SettledBy n (fun rest => f (b :: rest)) bs) : SettledBy (n + 1) f (b :: bs) := by
  rintro bs' ⟨rest, rfl⟩
  exact h _ (List.prefix_append _ rest)

/-- What `f` makes of the octets `bs` from offset `o` on, within a character that starts at offset
    `start`, is settled by the octets that it takes: an item by those that belong to it, and an
    octet that is refused is one of `bs` and is refused on account of the octets up to it. -/
structure Settled (start o : Nat) (f : Octets → Except TextError (α × Nat)) (bs : Octets) :
    Prop where
  item : ∀ a n, f bs = .ok (a, n) → ∃ m, start + 1 + n = o + m ∧ SettledBy m f bs
  refused : ∀ i x, f bs = .error (.invalid i x) →
    ∃ j, i = o + j ∧ bs[j]? = some x ∧ SettledBy (j + 1) f bs

variable {start o : Nat} {bs : Octets}

theorem settled_pure (a : α) {n : Nat} (h : start + 1 + n = o) :
    Settled start o (fun _ => pure (a, n)) bs where
  item a' n' hf := by
    obtain ⟨-, rfl⟩ := Prod.mk.inj (Except.ok.inj hf)
    exact ⟨0, h, fun _ _ => rfl⟩
  refused i x hf := nomatch hf

theorem Settled.cons {f : Octets → Except TextError (α × Nat)} {b : UInt8}
    (h : Settled start (o + 1) (fun rest => f (b :: rest)) bs) : Settled start o f (b :: bs) where
  item a n hf := by
    obtain ⟨m, hm, hsettled⟩ := h.item a n hf
    exact ⟨m + 1, by omega, hsettled.cons⟩
  refused i x hf := by
    obtain ⟨j, rfl, hx, hsettled⟩ := h.refused i x hf
    exact ⟨j + 1, by omega, hx, hsettled.cons⟩

theorem settled_octet_bind {fits : UInt8 → Bool}
    {next : UInt8 × Octets → Except TextError (α × Nat)}
    (h : ∀ b bs, Settled start (o + 1) (fun rest => next (b, rest)) bs) (bs : Octets) :
    Settled start o (fun bs => octet fits o bs >>= next) bs := by
  cases bs with
  | nil => exact ⟨fun a n hf => (nomatch hf), fun i x hf => (nomatch hf)⟩
  | cons b bs =>
    by_cases hfits : fits b = true
    · have hnext :
          (fun rest => octet fits o (b :: rest) >>= next) = fun rest => next (b, rest) := by
        funext rest
        rw [octet, if_pos hfits]
        rfl
      exact Settled.cons (hnext ▸ h b bs)
    · have hrefuse : ∀ rest, octet fits o (b :: rest) >>= next = .error (.invalid o b) := by
        intro rest
        rw [octet, if_neg hfits]
        rfl
      refine ⟨fun a n hf => ?_, fun i x hf => ?_⟩
      · cases (hrefuse bs).symm.trans hf
      · obtain ⟨rfl, rfl⟩ := TextError.invalid.inj (Except.error.inj ((hrefuse bs).symm.trans hf))
        exact ⟨0, rfl, rfl, SettledBy.cons fun rest _ => (hrefuse rest).trans (hrefuse bs).symm⟩

/-! ## One character -/

theorem isTrail_of_isHigh {b : UInt8} (h : isHigh b = true) : isTrail b = true := by
  rw [isHigh_iff] at h
  rw [isTrail_iff]
  omega

/-- The octet behind `ed` continues a character either way, so it can be taken before it is looked
    at. -/
theorem char_of_ed (o : Nat) (bs : Octets) :
    char o 0xed bs = octet isTrail (o + 1) bs >>= fun p₂ =>
      if isHigh p₂.1 then
        octet isTrail (o + 2) p₂.2 >>= fun p₃ => octet (· = 0xed) (o + 3) p₃.2 >>= fun p₄ =>
        octet isLow (o + 4) p₄.2 >>= fun p₅ => octet isTrail (o + 5) p₅.2 >>= fun p₆ =>
        pure (some (charOfPair p₂.1 p₃.1 p₅.1 p₆.1), 5)
      else octet isTrail (o + 2) p₂.2 >>= fun p₃ => pure (charOfThree 0xed p₂.1 p₃.1, 2) := by
  by_cases hs : bs.head?.any isHigh = true
  · obtain ⟨b, bs, rfl⟩ : ∃ b rest, bs = b :: rest :=
      List.exists_cons_of_ne_nil (by rintro rfl; cases hs)
    have hb : isHigh b = true := hs
    rw [char_of_pair hs, octet, octet, if_pos hb, if_pos (isTrail_of_isHigh hb)]
    exact (if_pos hb).symm
  · have hthree : ¬ ((0xed : UInt8) = 0xed ∧ bs.head?.any isHigh = true) := fun h => hs h.2
    rw [char_of_three (by decide) (by decide) hthree]
    cases bs with
    | nil => rfl
    | cons b bs =>
      have hb : ¬ isHigh b = true := hs
      by_cases htrail : isTrail b = true
      · rw [octet, if_pos htrail]
        exact (if_neg hb).symm
      · rw [octet, if_neg htrail]
        rfl

/-- What the scanner makes of an octet that can be the first one of a character. -/
theorem settled_char {b : UInt8} (hlead : isLead b = true) (o : Nat) (bs : Octets) :
    Settled o (o + 1) (char o b) bs := by
  have hb := isLead_iff.1 hlead
  by_cases h₁ : b.toNat < 0x80
  · have hone : char o b = fun _ => pure (some (Char.ofNat b.toNat), 0) :=
      funext fun bs => char_of_one (by omega) h₁
    rw [hone]
    exact settled_pure _ rfl
  by_cases h₂ : b.toNat < 0xe0
  · have htwo : char o b = _ := funext fun bs => char_of_two (by omega) h₂
    rw [htwo]
    refine settled_octet_bind (fun b₂ bs => ?_) bs
    exact settled_pure (charOfTwo b b₂) rfl
  by_cases hed : b = 0xed
  · rw [hed, funext (char_of_ed o)]
    refine settled_octet_bind (fun b₂ bs => ?_) bs
    dsimp only
    split
    · refine settled_octet_bind (fun b₃ bs => ?_) bs
      dsimp only
      refine settled_octet_bind (fun b₄ bs => ?_) bs
      refine settled_octet_bind (fun b₅ bs => ?_) bs
      dsimp only
      refine settled_octet_bind (fun b₆ bs => ?_) bs
      exact settled_pure (some (charOfPair b₂ b₃ b₅ b₆)) rfl
    · refine settled_octet_bind (fun b₃ bs => ?_) bs
      exact settled_pure (charOfThree 0xed b₂ b₃) rfl
  · have hthree : char o b = _ :=
      funext fun bs => char_of_three (by omega) (by omega) fun h => hed h.1
    rw [hthree]
    refine settled_octet_bind (fun b₂ bs => ?_) bs
    dsimp only
    refine settled_octet_bind (fun b₃ bs => ?_) bs
    exact settled_pure (charOfThree b b₂ b₃) rfl

theorem isLead_of_char {o k : Nat} {b : UInt8} {bs : Octets} {c : Option Char}
    (h : char o b bs = .ok (c, k)) : isLead b = true := by
  rw [isLead_iff]
  intro hinv
  rw [char_of_invalid hinv] at h
  cases h

theorem settledBy_char {o k : Nat} {b : UInt8} {bs : Octets} {c : Option Char}
    (h : char o b bs = .ok (c, k)) : SettledBy k (char o b) bs := by
  obtain ⟨m, hm, hsettled⟩ := (settled_char (isLead_of_char h) o bs).item c k h
  obtain rfl : k = m := by omega
  exact hsettled

/-- An octet is refused within a character, or as its first. -/
theorem settledBy_char_refused {o i : Nat} {b x : UInt8} {bs : Octets}
    (h : char o b bs = .error (.invalid i x)) :
    ∃ j, i = o + j ∧ (b :: bs)[j]? = some x ∧ SettledBy j (char o b) bs := by
  by_cases hlead : isLead b = true
  · obtain ⟨j, rfl, hx, hsettled⟩ := (settled_char hlead o bs).refused i x h
    exact ⟨j + 1, by omega, hx, hsettled⟩
  · have hrefuse : ∀ rest, char o b rest = .error (.invalid o b) := fun rest =>
      char_of_invalid (Classical.not_not.1 (mt isLead_iff.2 hlead))
    obtain ⟨rfl, rfl⟩ := TextError.invalid.inj (Except.error.inj ((hrefuse bs).symm.trans h))
    exact ⟨0, rfl, rfl, fun rest _ => (hrefuse rest).trans (hrefuse bs).symm⟩

/-! ## A text -/

/-- An octet that the scanner refuses is refused on account of the octets up to it. -/
theorem settledBy_scan {skip o i : Nat} {x : UInt8} {bs : Octets} {done : List (Option Char)}
    (h : scan skip o bs done = .error (.invalid i x)) :
    ∃ j, i = o + j ∧ skip ≤ j ∧ bs[j]? = some x ∧
      SettledBy (j + 1) (fun rest => scan skip o rest done) bs := by
  fun_induction scan skip o bs done with
  | case1 => cases h
  | case2 skip o b bs done ih =>
    obtain ⟨j, rfl, hskip, hx, hj⟩ := ih h
    exact ⟨j + 1, by omega, by omega, hx, SettledBy.cons hj⟩
  | case3 o b bs done c skip hc ih =>
    obtain ⟨j, rfl, hskip, hx, hj⟩ := ih h
    refine ⟨j + 1, by omega, by omega, hx, SettledBy.cons fun rest hpre => ?_⟩
    -- The character before the refused octet is found in `rest` too, with the same octets.
    have hchar : char o b rest = .ok (c, skip) :=
      ((settledBy_char hc).mono (Nat.le_succ_of_le hskip) rest hpre).trans hc
    simp only [scan, hchar, hc]
    exact hj rest hpre
  | case4 o b bs done e he =>
    obtain rfl := Except.error.inj h
    obtain ⟨j, rfl, hx, hj⟩ := settledBy_char_refused he
    refine ⟨j, rfl, Nat.zero_le _, hx, SettledBy.cons fun rest hpre => ?_⟩
    simp only [scan, hj rest hpre, he]

/-- An octet that is blamed is there; unless it is the first one, the octets up to it settle that it
    is blamed. -/
theorem settledBy_decode {b : Octets} {i : Nat} {x : UInt8}
    (h : decode b = .error (.invalid i x)) :
    b[i]? = some x ∧ (0 < i → SettledBy (i + 1) decode b) := by
  cases b with
  | nil => cases h
  | cons b bs =>
    rw [decode] at h
    cases hscan : scan 0 0 (b :: bs) [] with
    | error e =>
      rw [hscan] at h
      obtain rfl := Except.error.inj h
      obtain ⟨j, hij, -, hx, hj⟩ := settledBy_scan hscan
      obtain rfl : i = j := by omega
      refine ⟨hx, fun _ => SettledBy.cons fun rest hpre => ?_⟩
      have hrest := hj (b :: rest) ((List.prefix_cons_inj b).2 hpre)
      simp only [decode, hrest]
    | ok chars =>
      rw [hscan] at h
      dsimp only at h
      split at h
      · cases h
      · obtain ⟨rfl, rfl⟩ := TextError.invalid.inj (Except.error.inj h)
        exact ⟨rfl, fun hpos => absurd hpos (Nat.lt_irrefl 0)⟩

/-- **Refused octets are there, and stay refused.**  A string that is not empty is refused because
    one more octet is needed, or because of an octet in it; and if this is not the first octet, then
    every string that starts with the octets up to it is refused for the same reason. -/
theorem decode_refuses (b : Octets) (hb : b ≠ []) (e : FormatError)
    (h : (decode b).mapError .ofText = .error e) :
    e = .malformed (.incomplete 1) ∨
      ∃ i x, e = .invalidText i x ∧ b[i]? = some x ∧
        (0 < i → ∀ b', b.take (i + 1) <+: b' → (decode b').mapError .ofText = .error e) := by
  obtain ⟨cause, hcause, rfl⟩ := Except.mapError_eq_error_iff.1 h
  cases cause with
  | truncated => exact .inl rfl
  | empty => exact absurd hcause (decode_avoids_empty hb)
  | invalid i x =>
    obtain ⟨hx, hsettled⟩ := settledBy_decode hcause
    refine .inr ⟨i, x, rfl, hx, fun hi b' hpre => ?_⟩
    rw [hsettled hi b' hpre, hcause]
    rfl

/-- Behind two characters a surrogate pair breaks off at an octet that does not go with it; the same
    octet is refused if the string ends there. -/
theorem decode_refuses_broken_pair :
    (decode [0x41, 0xc0, 0x80, 0xed, 0xa0, 0x80, 0xee, 0x80]).mapError FormatError.ofText =
        .error (.invalidText 6 0xee) ∧
      (decode [0x41, 0xc0, 0x80, 0xed, 0xa0, 0x80, 0xee]).mapError FormatError.ofText =
        .error (.invalidText 6 0xee) := by
  have hbroken : (decode [0x41, 0xc0, 0x80, 0xed, 0xa0, 0x80, 0xee, 0x80]).mapError
      FormatError.ofText = .error (.invalidText 6 0xee) := rfl
  refine ⟨hbroken, ?_⟩
  rcases decode_refuses _ (List.cons_ne_nil _ _) _ hbroken with he | ⟨i, x, he, -, hsame⟩
  · cases he
  · obtain ⟨rfl, rfl⟩ := FormatError.invalidText.inj he
    exact hsame (by decide) _ (by decide)

end Bytecode.ModifiedUtf8
