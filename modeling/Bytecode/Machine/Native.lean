/-
  Host methods, which stand in for library code that is never loaded.

  A host method is a function of the arguments of a call, which it gets in the order in which they
  were pushed.  Only such methods are covered: one that keeps a state from call to call, or that
  writes a log of its own, is not.  That a method was called with these arguments is an event of the
  run, and what the two console methods print is told by their arguments (`NativeTable.printed`).

  The table of host methods is keyed by the static field that a call's receiver was read from and by
  the name of the method; registering a key again replaces the method.
-/
import Bytecode.Machine.RunError

namespace Bytecode

abbrev Native := List Value → Except RunError (Option Value)

namespace Native

def silent : Native := fun _ => .ok none

/-- Returns the same value at every call. -/
def always (v : Value) : Native := fun _ => .ok (some v)

def first : Native := fun args => .ok args.head?

def last : Native := fun args => .ok args.getLast?

/-- Returns the sum of the arguments, which have to be numbers. -/
def sum : Native := fun args => do
  let ns ← args.mapM Value.asInt
  return some (.int (ns.foldl (· + ·) 0))

/-- Fails as if a class were missing. -/
def missing (className : String) : Native := fun _ => .error (.classNotFound className)

end Native

/-- Host methods under their keys. -/
structure NativeTable where
  entries : List (NativeKey × Native)

namespace NativeTable

def empty : NativeTable := ⟨[]⟩

def get? (t : NativeTable) (k : NativeKey) : Option Native :=
  t.entries.lookup k

def contains (t : NativeTable) (k : NativeKey) : Bool :=
  (t.get? k).isSome

/-- Puts a host method under a key, in place of the one it had. -/
def register (t : NativeTable) (k : NativeKey) (f : Native) : NativeTable :=
  ⟨t.entries.filter (·.1 ≠ k) ++ [(k, f)]⟩

/-- The keys of a table as they are shown in a trace. -/
def traceText (t : NativeTable) : String :=
  "\x7b" ++ ", ".intercalate (t.entries.map (·.1.traceText)) ++ "\x7d"

/-- The key of a method of the standard output stream. -/
def consoleKey (method : String) : NativeKey :=
  ⟨"java/lang/System", "out", method⟩

/-- The two methods that print.  They return nothing; what a call prints is told by
    `printed`. -/
def console : NativeTable :=
  (empty.register (consoleKey "println") Native.silent).register (consoleKey "print") Native.silent

/-- What a call of a host method prints: its first argument, and for `println` the end of the
    line. -/
def printed (k : NativeKey) (args : List Value) : String :=
  let shown := (args.head?.map Value.text).getD ""
  if k = consoleKey "println" then shown ++ "\n"
  else if k = consoleKey "print" then shown
  else ""

theorem get?_register (t : NativeTable) (k j : NativeKey) (f : Native) :
    (t.register k f).get? j = if j = k then some f else t.get? j := by
  have key : ∀ es : List (NativeKey × Native),
      (es.filter (·.1 ≠ k) ++ [(k, f)]).lookup j =
        if j = k then some f else es.lookup j := by
    intro es
    induction es with
    | nil =>
      by_cases h : j = k
      · simp [h]
      · simp [List.lookup_cons, beq_false_of_ne h, h]
    | cons e rest ih =>
      obtain ⟨n, g⟩ := e
      by_cases hn : n = k
      · subst hn
        by_cases h : j = n
        · subst h; simpa using ih
        · simpa [List.lookup_cons, beq_false_of_ne h, h] using ih
      · by_cases h : j = n
        · subst h; simp [hn]
        · simpa [List.lookup_cons, hn, beq_false_of_ne h] using ih
  exact key t.entries

end NativeTable

end Bytecode
