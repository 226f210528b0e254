/-
  Readers: computations that move a cursor and either give a value or fail.

  A reader that fails part way leaves the cursor where it got to, so reading can go on from
  there; the single steps (`Cursor.take` and the fixed-width reads built on it) do not move when
  they fail.

  * `u8` to `i32` and `index` are the readers of numbers, `Reading.u8` and so on, of this kind;
  * `many n r` runs `r` exactly `n` times (`run_many_zero`, `many_succ`);
  * `withError` changes the kind of error.
-/
import Bytecode.Octets.Reading

namespace Bytecode

/-- A computation on a cursor; the cursor it leaves behind is kept on failure too. -/
def Reader (ε α : Type) : Type :=
  Cursor → Except ε α × Cursor

namespace Reader

variable {ε δ α β : Type}

instance : Monad (Reader ε) where
  pure a := fun c => (.ok a, c)
  bind r k := fun c =>
    match r c with
    | (.ok a, c') => k a c'
    | (.error e, c') => (.error e, c')

def run (r : Reader ε α) (c : Cursor) : Except ε α × Cursor :=
  r c

/-- Runs a reader at the start of a string of octets and forgets where it stopped. -/
def parse (r : Reader ε α) (source : Octets) : Except ε α :=
  (r.run (.ofOctets source)).1

def fail (e : ε) : Reader ε α :=
  fun c => (.error e, c)

def withError (f : ε → δ) (r : Reader ε α) : Reader δ α :=
  fun c =>
    match r c with
    | (.ok a, c') => (.ok a, c')
    | (.error e, c') => (.error (f e), c')

def take (n : Nat) : Reader ReadError Octets :=
  fun c => c.take n

def offset : Reader ε Nat :=
  fun c => (.ok c.offset, c)

def number (w : Nat) : Reader ReadError Nat :=
  BigEndian.decode <$> take w

/-- Runs `r` for each of `n` items still to come, after the items `done` (the last one first). -/
def manyFrom (r : Reader ε α) : Nat → List α → Reader ε (List α)
  | 0, done => fun c => (.ok done.reverse, c)
  | n + 1, done => fun c =>
    match r c with
    | (.ok a, c') => manyFrom r n (a :: done) c'
    | (.error e, c') => (.error e, c')

def many (n : Nat) (r : Reader ε α) : Reader ε (List α) :=
  manyFrom r n []

instance : Reading Reader where
  fail := fail
  withError := withError
  many := many
  offset := offset
  take := take
  number := number

abbrev u8 : Reader ReadError UInt8 := Reading.u8 Reader
abbrev u16 : Reader ReadError UInt16 := Reading.u16 Reader
abbrev u32 : Reader ReadError UInt32 := Reading.u32 Reader
abbrev i8 : Reader ReadError Int8 := Reading.i8 Reader
abbrev i16 : Reader ReadError Int16 := Reading.i16 Reader
abbrev i32 : Reader ReadError Int32 := Reading.i32 Reader
abbrev index : Reader ReadError Nat := Reading.index Reader

/-! ## Equations -/

theorem u8_eq : Reading.u8 Reader = UInt8.ofNat <$> number 1 := rfl
theorem u16_eq : Reading.u16 Reader = UInt16.ofNat <$> number 2 := rfl
theorem i8_eq : Reading.i8 Reader = UInt8.toInt8 <$> u8 := rfl
theorem i16_eq : Reading.i16 Reader = UInt16.toInt16 <$> u16 := rfl

@[simp] theorem run_pure (a : α) (c : Cursor) : (pure a : Reader ε α).run c = (.ok a, c) := rfl

theorem run_bind (r : Reader ε α) (k : α → Reader ε β) (c : Cursor) :
    (r >>= k).run c =
      match r.run c with
      | (.ok a, c') => (k a).run c'
      | (.error e, c') => (.error e, c') := rfl

theorem run_bind_ok {r : Reader ε α} {c c' : Cursor} {a : α} (h : r.run c = (.ok a, c'))
    (k : α → Reader ε β) : (r >>= k).run c = (k a).run c' := by
  rw [run_bind, h]

theorem run_bind_error {r : Reader ε α} {c c' : Cursor} {e : ε} (h : r.run c = (.error e, c'))
    (k : α → Reader ε β) : (r >>= k).run c = (.error e, c') := by
  rw [run_bind, h]

theorem run_map (f : α → β) (r : Reader ε α) (c : Cursor) :
    (f <$> r).run c =
      match r.run c with
      | (.ok a, c') => (.ok (f a), c')
      | (.error e, c') => (.error e, c') := rfl

/-- The items already read only stand before the others. -/
theorem run_manyFrom (r : Reader ε α) (n : Nat) (done : List α) (c : Cursor) :
    (manyFrom r n done).run c =
      match (many n r).run c with
      | (.ok as, c') => (.ok (done.reverse ++ as), c')
      | (.error e, c') => (.error e, c') := by
  induction n generalizing done c with
  | zero => simp [many, manyFrom, run]
  | succ n ih =>
    simp only [many, run, manyFrom] at ih ⊢
    rcases r c with ⟨⟨e⟩ | ⟨a⟩, c'⟩
    · rfl
    · simp only [ih (a :: done), ih [a]]
      rcases manyFrom r n [] c' with ⟨⟨e⟩ | ⟨as⟩, c''⟩ <;> simp

@[simp] theorem run_many_zero (r : Reader ε α) (c : Cursor) : (many 0 r).run c = (.ok [], c) := rfl

theorem run_many_succ (n : Nat) (r : Reader ε α) (c : Cursor) :
    (many (n + 1) r).run c = (do let a ← r; let as ← many n r; pure (a :: as)).run c := by
  have h : (many (n + 1) r).run c = (do let a ← r; manyFrom r n [a]).run c := rfl
  rw [h, run_bind, run_bind]
  rcases r.run c with ⟨⟨e⟩ | ⟨a⟩, c'⟩
  · rfl
  · change (manyFrom r n [a]).run c' = (many n r >>= fun as => pure (a :: as)).run c'
    rw [run_manyFrom, run_bind]
    rcases (many n r).run c' with ⟨⟨e⟩ | ⟨as⟩, c''⟩ <;> rfl

theorem many_succ (n : Nat) (r : Reader ε α) :
    many (n + 1) r = (do let a ← r; let as ← many n r; pure (a :: as)) :=
  funext (run_many_succ n r)

end Reader

end Bytecode
