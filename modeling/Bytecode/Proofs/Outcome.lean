/-
  Computations that may fail, taken apart.

  A chain of steps succeeds if every step does, and otherwise fails as its first failing step does.
  The equations for `>>=`, `pure`, `<$>` and `mapError` say so once, for the proofs that go through
  such a chain step by step.

  `Ensures` speaks of both ends of a computation at once, of its error and of its value, and is
  carried along a chain by `Ensures.bind`.  `Avoids` is for a single error that no step of a chain
  may end with.  `Yields` compares two computations by their values.  The lemmas about `isOk` tell
  whether a chain succeeds at all.
-/
namespace Except

variable {ε δ α β : Type}

theorem bind_eq_ok_iff {x : Except ε α} {f : α → Except ε β} {b : β} :
    x >>= f = .ok b ↔ ∃ a, x = .ok a ∧ f a = .ok b := by
  cases x <;> simp [bind, Except.bind]

theorem toOption_eq_some_iff {x : Except ε α} {a : α} : x.toOption = some a ↔ x = .ok a := by
  cases x <;> simp [Except.toOption]

theorem pure_eq_ok_iff {a b : α} : (pure a : Except ε α) = .ok b ↔ a = b := by
  simp [pure, Except.pure]

theorem map_eq_ok_iff {x : Except ε α} {f : α → β} {b : β} :
    f <$> x = .ok b ↔ ∃ a, x = .ok a ∧ f a = b := by
  cases x <;> simp [Functor.map, Except.map]

theorem getElem?_of_mapM {f : α → Except ε β} {as : List α} {bs : List β} (h : as.mapM f = .ok bs)
    {k : Nat} {a : α} (ha : as[k]? = some a) : ∃ b, bs[k]? = some b ∧ f a = .ok b := by
  induction as generalizing bs k with
  | nil => cases ha
  | cons a' as ih =>
    rw [List.mapM_cons] at h
    obtain ⟨b, hb, h⟩ := bind_eq_ok_iff.1 h
    obtain ⟨bs', hbs', h⟩ := bind_eq_ok_iff.1 h
    obtain rfl := pure_eq_ok_iff.1 h
    cases k with
    | zero =>
      obtain rfl := Option.some.inj ha
      exact ⟨b, rfl, hb⟩
    | succ k => exact ih hbs' ha

theorem length_of_mapM {f : α → Except ε β} {as : List α} {bs : List β} (h : as.mapM f = .ok bs) :
    bs.length = as.length := by
  induction as generalizing bs with
  | nil =>
    obtain rfl := pure_eq_ok_iff.1 h
    rfl
  | cons a as ih =>
    rw [List.mapM_cons] at h
    obtain ⟨b, -, h⟩ := bind_eq_ok_iff.1 h
    obtain ⟨bs', hbs', h⟩ := bind_eq_ok_iff.1 h
    obtain rfl := pure_eq_ok_iff.1 h
    rw [List.length_cons, List.length_cons, ih hbs']

theorem exists_of_mem_mapM {f : α → Except ε β} {as : List α} {bs : List β}
    (h : as.mapM f = .ok bs) {b : β} (hb : b ∈ bs) : ∃ a ∈ as, f a = .ok b := by
  obtain ⟨k, hk⟩ := List.mem_iff_getElem?.1 hb
  have hlt : k < as.length := length_of_mapM h ▸ (List.getElem?_eq_some_iff.1 hk).1
  have ha : as[k]? = some as[k] := List.getElem?_eq_getElem hlt
  obtain ⟨b', hb', hf⟩ := getElem?_of_mapM h ha
  obtain rfl := Option.some.inj (hk.symm.trans hb')
  exact ⟨as[k], List.getElem_mem hlt, hf⟩

theorem isOk_iff {x : Except ε α} : x.isOk ↔ ∃ a, x = .ok a := by
  cases x <;> simp [Except.isOk, Except.toBool]

theorem isOk_bind_iff {x : Except ε α} {f : α → Except ε β} :
    (x >>= f).isOk ↔ ∃ a, x = .ok a ∧ (f a).isOk := by
  cases x <;> simp [bind, Except.bind, Except.isOk, Except.toBool]

/-- Where the rest of a chain succeeds or not whatever the value of its first step. -/
theorem isOk_bind_iff_and {x : Except ε α} {f : α → Except ε β} {P : Prop}
    (hf : ∀ a, (f a).isOk ↔ P) : (x >>= f).isOk ↔ x.isOk ∧ P := by
  rw [isOk_bind_iff, isOk_iff]
  simp only [hf, exists_and_right]

theorem isOk_bind_iff_left {x : Except ε α} {f : α → Except ε β} (hf : ∀ a, (f a).isOk) :
    (x >>= f).isOk ↔ x.isOk := by
  rw [isOk_bind_iff, isOk_iff]
  simp only [hf, and_true]

theorem isOk_bind {x : Except ε α} {f : α → Except ε β} (hx : x.isOk) (hf : ∀ a, (f a).isOk) :
    (x >>= f).isOk :=
  (isOk_bind_iff_left hf).2 hx

theorem isOk_map {x : Except ε α} (hx : x.isOk) (f : α → β) : (f <$> x).isOk := by
  obtain ⟨a, rfl⟩ := isOk_iff.1 hx
  rfl

theorem isOk_mapM_iff {f : α → Except ε β} {as : List α} :
    (as.mapM f).isOk ↔ ∀ a ∈ as, (f a).isOk := by
  induction as with
  | nil => simp [isOk_iff, pure_eq_ok_iff]
  | cons a as ih =>
    rw [List.mapM_cons, List.forall_mem_cons, ← ih]
    exact isOk_bind_iff_and fun b => isOk_bind_iff_left fun bs => rfl

theorem mapError_ok (f : ε → δ) (a : α) : (Except.ok a).mapError f = .ok a := rfl

theorem mapError_eq_ok_iff {x : Except ε α} {f : ε → δ} {a : α} :
    x.mapError f = .ok a ↔ x = .ok a := by
  cases x with
  | error e => exact ⟨fun h => (nomatch h), fun h => (nomatch h)⟩
  | ok b =>
    constructor
    · intro h
      rw [Except.ok.inj h]
    · intro h
      rw [Except.ok.inj h]
      rfl

theorem mapError_eq_error_iff {x : Except ε α} {f : ε → δ} {d : δ} :
    x.mapError f = .error d ↔ ∃ e, x = .error e ∧ f e = d := by
  cases x with
  | error e =>
    refine ⟨fun h => ⟨e, rfl, Except.error.inj h⟩, ?_⟩
    rintro ⟨e', he, rfl⟩
    rw [Except.error.inj he]
    rfl
  | ok b =>
    refine ⟨fun h => (nomatch h), ?_⟩
    rintro ⟨e, he, -⟩
    cases he

/-- If the computation fails, its error satisfies `E`, and if it succeeds, its value `Q`. -/
def Ensures (E : ε → Prop) (Q : α → Prop) : Except ε α → Prop
  | .error e => E e
  | .ok a => Q a

namespace Ensures

variable {E : ε → Prop} {Q : α → Prop} {R : β → Prop} {x : Except ε α}

theorem intro (herror : ∀ e, x = .error e → E e) (hok : ∀ a, x = .ok a → Q a) : x.Ensures E Q := by
  cases x with
  | error e => exact herror e rfl
  | ok a => exact hok a rfl

theorem error (h : x.Ensures E Q) {e : ε} (hx : x = .error e) : E e := by
  rw [hx] at h
  exact h

theorem ok (h : x.Ensures E Q) {a : α} (hx : x = .ok a) : Q a := by
  rw [hx] at h
  exact h

theorem imp {E' : ε → Prop} {Q' : α → Prop} (h : x.Ensures E Q) (hE : ∀ e, E e → E' e)
    (hQ : ∀ a, Q a → Q' a) : x.Ensures E' Q' := by
  cases x with
  | error e => exact hE e h
  | ok a => exact hQ a h

theorem bind {f : α → Except ε β} (h : x.Ensures E Q) (hf : ∀ a, Q a → (f a).Ensures E R) :
    (x >>= f).Ensures E R := by
  cases x with
  | error e => exact h
  | ok a => exact hf a h

theorem map {f : α → β} (h : x.Ensures E Q) (hf : ∀ a, Q a → R (f a)) :
    (f <$> x).Ensures E R := by
  cases x with
  | error e => exact h
  | ok a => exact hf a h

end Ensures

/-- The computation does not fail with this error. -/
def Avoids (bad : ε) (x : Except ε α) : Prop :=
  x ≠ .error bad

namespace Avoids

variable {bad e : ε} {x : Except ε α}

theorem ok (a : α) : (Except.ok a).Avoids bad :=
  fun h => nomatch h

theorem error (h : e ≠ bad) : (Except.error e : Except ε α).Avoids bad :=
  fun he => h (Except.error.inj he)

theorem of_isOk (h : x.isOk) : x.Avoids bad := by
  obtain ⟨a, rfl⟩ := isOk_iff.1 h
  exact ok a

theorem bind {f : α → Except ε β} (hx : x.Avoids bad)
    (hf : ∀ a, x = .ok a → (f a).Avoids bad) : (x >>= f).Avoids bad := by
  cases x with
  | error e => exact error fun he => hx (congrArg Except.error he)
  | ok a => exact hf a rfl

theorem map (hx : x.Avoids bad) (f : α → β) : (f <$> x).Avoids bad := by
  cases x with
  | error e => exact error fun he => hx (congrArg Except.error he)
  | ok a => exact ok _

theorem mapError {f : ε → δ} {worse : δ} (hf : ∀ e, f e = worse → e = bad) (hx : x.Avoids bad) :
    (x.mapError f).Avoids worse := by
  intro h
  obtain ⟨e, he, heq⟩ := mapError_eq_error_iff.1 h
  exact hx (hf e heq ▸ he)

theorem mapM {f : β → Except ε α} {bs : List β} (h : ∀ b ∈ bs, (f b).Avoids bad) :
    (bs.mapM f).Avoids bad := by
  induction bs with
  | nil => exact ok []
  | cons b bs ih =>
    rw [List.mapM_cons]
    rw [List.forall_mem_cons] at h
    exact h.1.bind fun a _ => (ih h.2).bind fun as _ => ok _

end Avoids

/-- If the computation `x` gives a value, then `y` gives the image of this value. -/
def Yields (g : α → β) (x : Except ε α) (y : Except ε β) : Prop :=
  ∀ a, x = .ok a → y = .ok (g a)

namespace Yields

variable {α' β' : Type} {g : α → α'} {g' : β → β'} {x : Except ε α} {y : Except ε α'}

theorem ok {a : α} {a' : α'} (h : g a = a') : (Except.ok a : Except ε α).Yields g (.ok a') := by
  intro b hb
  rw [← Except.ok.inj hb, h]

theorem error (e : ε) (y : Except ε α') : (Except.error e : Except ε α).Yields g y := by
  intro a ha
  cases ha

theorem refl (x : Except ε α) : x.Yields id x :=
  fun _ h => h

theorem bind {k : α → Except ε β} {k' : α' → Except ε β'} (h : x.Yields g y)
    (hk : ∀ a, (k a).Yields g' (k' (g a))) : (x >>= k).Yields g' (y >>= k') := by
  intro b hb
  obtain ⟨a, ha, hka⟩ := bind_eq_ok_iff.1 hb
  exact bind_eq_ok_iff.2 ⟨g a, h a ha, hk a b hka⟩

theorem map {f : α → β} {f' : α' → β'} (h : x.Yields g y) (hf : ∀ a, g' (f a) = f' (g a)) :
    (f <$> x).Yields g' (f' <$> y) := by
  intro b hb
  obtain ⟨a, ha, rfl⟩ := map_eq_ok_iff.1 hb
  exact map_eq_ok_iff.2 ⟨g a, h a ha, (hf a).symm⟩

end Yields

end Except
