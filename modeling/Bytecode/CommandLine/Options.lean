/-
  The arguments of the command.

  An argument is an option, the class, or the value of the option before it.
  * An option has a long name after `--`; some have a letter after `-` as well.  More dashes before
    a long name change nothing.
  * The value of an option is attached to it (`--method=run`, `-m=run`, `-mrun`) or is the next
    argument.  Equals signs before an attached value are not part of it.
  * An argument that starts with a dash is no value for the option before it, unless it is a lone
    dash.  An option that is left without a value keeps the value it has by default.
  * After `--` there are no more options.
  * No option is given twice, and there is one class.
-/
namespace Bytecode.CommandLine

/-- The options that take a value. -/
inductive Setting where
  | classpath
  | method
  deriving DecidableEq, Repr

/-- The options that take none. -/
inductive Switch where
  | sharedHeap
  | dump
  deriving DecidableEq, Repr

/-- Why arguments cannot be understood. -/
inductive UsageError where
  | unknown (arg : String)
  | repeated (option : String)
  | noClass
  deriving DecidableEq, Repr

def UsageError.message : UsageError → String
  | .unknown arg => s!"unexpected argument `{arg}`"
  | .repeated option => s!"`{option}` was given more than once"
  | .noClass => "no class was named"

namespace Setting

def name : Setting → String
  | classpath => "classpath"
  | method => "method"

def letter : Setting → Char
  | classpath => 'c'
  | method => 'm'

/-- What holds where the option is not given. -/
def default : Setting → String
  | classpath => "."
  | method => "main"

def all : List Setting := [classpath, method]

end Setting

namespace Switch

def name : Switch → String
  | sharedHeap => "shared-heap"
  | dump => "dump"

def all : List Switch := [sharedHeap, dump]

end Switch

/-! ## One argument -/

/-- What an argument is by its form. -/
inductive Word where
  /-- A class, or the value of an option. -/
  | plain (text : String)
  /-- An option with the value attached to it, if there is one. -/
  | setting (s : Setting) (attached : Option String)
  | switch (s : Switch)
  | ending
  | unknown (arg : String)
  deriving DecidableEq, Repr

namespace Word

/-- A value without the equals signs before it. -/
def attachedValue (cs : List Char) : String :=
  String.ofList (cs.dropWhile (· = '='))

/-- The option of a long name, with what follows the name from the first equals sign on.  A switch
    takes no notice of a value. -/
def long (arg name : String) (rest : List Char) : Word :=
  match Setting.all.find? (·.name = name), Switch.all.find? (·.name = name) with
  | some s, _ => .setting s (if rest = [] then none else some (attachedValue rest))
  | none, some s => .switch s
  | none, none => .unknown arg

/-- The option of a letter, with what follows the letter. -/
def short (arg : String) (letter : Char) (rest : List Char) : Word :=
  match Setting.all.find? (·.letter = letter) with
  | some s => .setting s (if rest = [] then none else some (attachedValue rest))
  | none => .unknown arg

def ofArg (arg : String) : Word :=
  match arg.toList with
  | ['-', '-'] => .ending
  | '-' :: '-' :: cs =>
    let body := cs.dropWhile (· = '-')
    long arg (String.ofList (body.takeWhile (· ≠ '='))) (body.dropWhile (· ≠ '='))
  | '-' :: letter :: rest => short arg letter rest
  | _ => .plain arg

/-- Whether an argument can be the value of the option before it. -/
def isPlain (arg : String) : Bool :=
  ofArg arg = .plain arg

end Word

/-! ## All arguments -/

/-- What the command is told by one or two of its arguments. -/
inductive Item where
  | setting (s : Setting) (value : Option String)
  | switch (s : Switch)
  | className (name : String)
  deriving DecidableEq, Repr

namespace Item

def ofArgs : List String → Except UsageError (List Item)
  | [] => .ok []
  | arg :: args =>
    match Word.ofArg arg, args with
    | .setting s none, value :: rest =>
      if Word.isPlain value then (.setting s (some value) :: ·) <$> ofArgs rest
      else (.setting s none :: ·) <$> ofArgs (value :: rest)
    | .setting s value, args => (.setting s value :: ·) <$> ofArgs args
    | .switch s, args => (.switch s :: ·) <$> ofArgs args
    | .plain text, args => (.className text :: ·) <$> ofArgs args
    | .ending, args => .ok (args.map .className)
    | .unknown arg, _ => .error (.unknown arg)

/-- The value that an item gives to a setting. -/
def valueFor (s : Setting) : Item → Option (Option String)
  | setting t value => if t = s then some value else none
  | _ => none

def class? : Item → Option String
  | className name => some name
  | _ => none

end Item

/-- What the command is asked to do. -/
structure Options where
  classpath : String
  method : String
  /-- Whether static calls run on the heap of their callers. -/
  sharedHeap : Bool
  dump : Bool
  /-- The name of the class, with slashes or with dots. -/
  className : String
  deriving DecidableEq, Repr

namespace Options

def settingOf (items : List Item) (s : Setting) : Except UsageError String :=
  match items.filterMap (Item.valueFor s) with
  | [] => .ok s.default
  | [value] => .ok (value.getD s.default)
  | _ => .error (.repeated s.name)

def switchOf (items : List Item) (s : Switch) : Except UsageError Bool :=
  match items.count (.switch s) with
  | 0 => .ok false
  | 1 => .ok true
  | _ => .error (.repeated s.name)

/-- The one class that is named. -/
def classOf (items : List Item) : Except UsageError String :=
  match items.filterMap Item.class? with
  | [] => .error .noClass
  | [name] => .ok name
  | _ :: extra :: _ => .error (.unknown extra)

def parse (args : List String) : Except UsageError Options := do
  let items ← Item.ofArgs args
  return {
    classpath := ← settingOf items .classpath
    method := ← settingOf items .method
    sharedHeap := ← switchOf items .sharedHeap
    dump := ← switchOf items .dump
    className := ← classOf items }

end Options

end Bytecode.CommandLine
