import JsonShape.Query.Value

/-!
# Queries

A filter of the jq language takes a value and yields any number of results, in order, each a
value or an error.  `Query` is a small part of the language: paths, literals, construction of
arrays and objects, comparison, alternatives, pipes, and the few named filters of `isDefined`.

`Query.eval` gives the results.  Where an operation takes several queries, it runs through the
results of the first in its outer loop.  In a path the keys of all steps are found first, and
each choice of them is followed from the start, so a choice of keys is in the outer loop and the
parts of a value are in the inner one.
-/

namespace JsonShape

mutual

/-- A filter. -/
inductive Query where
  | identity
  | null
  | bool (value : Bool)
  | number (value : QueryNumber)
  | string (value : String)
  | array (body : Option Query)
  | object (members : List (Query × Query))
  | path (target : Query) (steps : List QueryStep)
  | negate (operand : Query)
  | equal (left right : Query)
  | unequal (left right : Query)
  | comma (left right : Query)
  | pipe (left right : Query)
  | call (name : String) (arguments : List Query)
  | variable (name : String)

/-- A step of a path: to all parts, or to those under the keys that a query gives. -/
inductive QueryStep where
  | all
  | key (query : Query)

end

/-- A step of a path with a key that has been found. -/
inductive Selector where
  | all
  | key (value : QueryValue)

namespace Query

/-- The results of a query on each of some results. -/
def through {α : Type} (results : List (Except QueryError α)) (next : α → List QueryResult) :
    List QueryResult :=
  results.flatMap fun
    | .ok value => next value
    | .error cause => [.error cause]

/-- All results of an operation on the results of two queries, those of the first outermost. -/
def combine {α β γ : Type} (operation : α → β → Except QueryError γ)
    (left : List (Except QueryError α)) (right : List (Except QueryError β)) :
    List (Except QueryError γ) :=
  left.flatMap fun l => right.map fun r => l.bind fun a => r.bind (operation a)

/-- The parts of a value that one step leads to. -/
def select (value : QueryValue) : Selector → List QueryResult
  | .all => value.parts
  | .key key => [value.child key]

/-- The parts of a value that several steps lead to, one after the other. -/
def follow : List Selector → QueryValue → List QueryResult
  | [], value => [.ok value]
  | selector :: rest, value => through (select value selector) (follow rest)

/-- An object with one more member. -/
def addMember (object : QueryValue) (key value : QueryValue) : QueryResult :=
  match object, key with
  | .object members, .string name => .ok (.object (Entries.put members name value))
  | _, _ => .error .badKey

mutual

/-- The results of a query on a value. -/
def eval : Query → QueryValue → List QueryResult
  | identity, input => [.ok input]
  | null, _ => [.ok .null]
  | bool b, _ => [.ok (.bool b)]
  | number n, _ => [.ok (.number n)]
  | string s, _ => [.ok (.string s)]
  | array none, _ => [.ok (.array [])]
  | array (some body), input => [((eval body input).mapM id).map .array]
  | object members, input => evalMembers members input [.ok (.object [])]
  | path target steps, input =>
    through (eval target input) fun value =>
      through (evalSteps steps input) fun selectors => follow selectors value
  | negate operand, input => (eval operand input).map (·.bind QueryValue.negated)
  | equal left right, input =>
    combine (fun a b => .ok (.bool (a.same b))) (eval left input) (eval right input)
  | unequal left right, input =>
    combine (fun a b => .ok (.bool !(a.same b))) (eval left input) (eval right input)
  | comma left right, input => eval left input ++ eval right input
  | pipe left right, input => through (eval left input) (eval right)
  | call name arguments, input =>
    match name, arguments with
    | "empty", [] => []
    | "error", [] => [.error .raised]
    | "error", [value] =>
      match eval value input with
      | [] => [.ok input]
      | results => through results fun _ => [.error .raised]
    | "select", [test] =>
      through (eval test input) fun result => if result.isTrue then [.ok input] else []
    | "not", [] => [.ok (.bool !input.isTrue)]
    | _, _ => [.error .undefined]
  | «variable» _, _ => [.error .undefined]

/-- All choices of keys for the steps of a path, those of the first step outermost. -/
def evalSteps : List QueryStep → QueryValue → List (Except QueryError (List Selector))
  | [], _ => [.ok []]
  | .all :: rest, input =>
    (evalSteps rest input).map (·.map (Selector.all :: ·))
  | .key key :: rest, input =>
    combine (fun found selectors => .ok (.key found :: selectors)) (eval key input)
      (evalSteps rest input)

/-- The objects that are built from members on top of some objects. -/
def evalMembers : List (Query × Query) → QueryValue → List QueryResult → List QueryResult
  | [], _, built => built
  | (key, value) :: rest, input, built =>
    let keys := eval key input
    let values := eval value input
    evalMembers rest input
      (built.flatMap fun object => keys.flatMap fun k => values.map fun v =>
        object.bind fun object => k.bind fun k => v.bind (addMember object k))

end

/-- A name that nothing defines: a filter with so many arguments, or a variable. -/
inductive Undefined where
  | filter (name : String) (arity : Nat)
  | variable (name : String)
  deriving DecidableEq, Repr

/-- Whether this part of the language has a filter of a name with so many arguments. -/
def isDefined (name : String) (arity : Nat) : Bool :=
  [("empty", 0), ("error", 0), ("error", 1), ("select", 1), ("not", 0)].contains (name, arity)

mutual

/-- The undefined names of a query, in order. -/
def undefinedNames : Query → List Undefined
  | array (some body) => undefinedNames body
  | object members => undefinedMembers members
  | path target steps => undefinedNames target ++ undefinedSteps steps
  | negate operand => undefinedNames operand
  | equal left right | unequal left right | comma left right | pipe left right =>
    undefinedNames left ++ undefinedNames right
  | call name arguments =>
    undefinedArguments arguments ++
      (if isDefined name arguments.length then [] else [.filter name arguments.length])
  | «variable» name => [.variable name]
  | _ => []

/-- The undefined names of a path's steps. -/
def undefinedSteps : List QueryStep → List Undefined
  | [] => []
  | .all :: rest => undefinedSteps rest
  | .key key :: rest => undefinedNames key ++ undefinedSteps rest

/-- The undefined names of some arguments. -/
def undefinedArguments : List Query → List Undefined
  | [] => []
  | argument :: rest => undefinedNames argument ++ undefinedArguments rest

/-- The undefined names of an object's members. -/
def undefinedMembers : List (Query × Query) → List Undefined
  | [] => []
  | (key, value) :: rest =>
    undefinedNames key ++ undefinedNames value ++ undefinedMembers rest

end

end Query

end JsonShape
