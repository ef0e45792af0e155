import Keyplan.OrderedMap
import Keyplan.Toml.Parser

/-!
What the statements of a configuration file define: tables of values, and the keys in the order
they were written. A key is defined once. Tables that were only implied by longer keys can still be
defined, and an array can be replaced.

The kind of a value is noted under its key, but an entry without a name has its kind noted under the
key of its table. So an array without a name makes its table replaceable, and any other value
without a name makes an array it is written in fixed.
-/

namespace Keyplan.Toml

abbrev Table := OrderedMap String Value

/-- The table that names lead to. Where tables were written one by one, the last one counts. -/
def tableAt? (t : Table) : Key → Option Table
  | [] => some t
  | name :: rest =>
    match t.get? name with
    | some (.table inner) => tableAt? inner rest
    | some (.tables items) =>
      match items.getLast? with
      | some (.table inner) => tableAt? inner rest
      | _ => none
    | _ => none

def updateAt? (f : Table → Option Table) (t : Table) : Key → Option Table
  | [] => f t
  | name :: rest =>
    match t.get? name with
    | some (.table inner) => do
      let inner ← updateAt? f inner rest
      some (t.insert name (.table inner))
    | some (.tables items) =>
      match items.getLast? with
      | some (.table inner) => do
        let inner ← updateAt? f inner rest
        some (t.insert name (.tables (items.dropLast ++ [.table inner])))
      | _ => none
    | _ => none

/-- What is defined so far. -/
structure Definitions where
  root : Table := []
  /-- The tables that are only implied. -/
  implied : List Key := []
  /-- The keys that are noted as arrays. -/
  arrays : List Key := []
  /-- All keys in the order they were written. -/
  keys : List Key := []
  /-- The keys at which the table in force is the very table that the value being read holds, so
  that an entry added to one is added to both. -/
  joint : List Key := []

namespace Definitions

/-- Notes that a table is implied by a longer key. -/
def imply (d : Definitions) (key : Key) : Definitions :=
  { d with implied := key :: d.implied }

/-- Notes whether a key holds an array. -/
def noteArray (d : Definitions) (key : Key) (isArray : Bool) : Definitions :=
  let others := d.arrays.filter (· != key)
  { d with arrays := if isArray then key :: others else others }

/-- The key under which the kind of an entry is noted. -/
def kindKey (context : Key) (name : String) : Key :=
  if name = "" ∧ context ≠ [] then context else context ++ [name]

/-- Forgets which tables at a key and below it are joint. -/
def part (d : Definitions) (key : Key) : Definitions :=
  { d with joint := d.joint.filter fun k => !key.isPrefixOf k }

/-- Writes a name into the table at `context`, whatever it held. -/
def write? (d : Definitions) (context : Key) (name : String) (v : Value) :
    Option Definitions := do
  let root ← updateAt? (fun t => some (t.insert name v)) d.root context
  some { d with root := root }

/-- Whether there is an array at a name, which can be replaced. -/
def isReplaceable (d : Definitions) (context : Key) (name : String) : Bool :=
  d.arrays.contains (context ++ [name])
    && (tableAt? d.root context).any fun t => (t.get? name).isSome

/-- Defines a name in the table at `context`. -/
def define? (d : Definitions) (context : Key) (name : String) (v : Value) :
    Option Definitions := do
  let key := context ++ [name]
  let table ← tableAt? d.root context
  let settled := { d with implied := d.implied.filter (· != key) }
  if (table.get? name).isNone then d.write? context name v
  -- An array gives way, and no table behind the name is joint any more.
  else if d.isReplaceable context name then (settled.part key).write? context name v
  -- A table that was only implied keeps its entries, and is defined from now on.
  else if d.implied.contains key then some settled
  else none

/-- Makes sure that there are tables on the way to a key behind `before`. -/
def openParents? (d : Definitions) (before : Key) : Key → Option Definitions
  | [] => some d
  | name :: rest => do
    let key := before ++ [name]
    let table ← tableAt? d.root before
    let d ← match table.get? name with
      | some _ => some d
      | none => do
        let root ← updateAt? (fun t => some (t.insert name (.table []))) d.root before
        some { d.imply key with root := root }
    let _ ← tableAt? d.root key
    openParents? d key rest

/-- Adds a table behind those written one by one under `name`. -/
def addItem? (name : String) (t : Table) : Option Table :=
  match t.get? name with
  | none => some (t.insert name (.tables [.table []]))
  | some (.tables items) => some (t.insert name (.tables (items ++ [.table []])))
  | some _ => none

/-- Opens the table of a key, or adds one to the tables of a key. -/
def openTable? (d : Definitions) (key : Key) (asItem : Bool) : Option Definitions := do
  let context := key.dropLast
  let name ← key.getLast?
  let d ← d.openParents? [] context
  if asItem then
    let root ← updateAt? (addItem? name) d.root context
    some { d.part key with root := root }
  else d.define? context name (.table [])

/-- Opens the tables that a key written with points implies in the table at `context`. -/
def openImplied? (d : Definitions) (context : Key) : Key → Option (Definitions × Key)
  | [] => some (d, context)
  | name :: rest => do
    let key := context ++ [name]
    let d ← (d.imply key).openTable? key false
    d.openImplied? key rest

/-- A table with a value at the end of some names. -/
def nest? (path : Key) (name : String) (v : Value) (t : Table) : Option Table :=
  match path with
  | [] => some (t.insert name v)
  | p :: rest =>
    match (t.get? p).getD (.table []) with
    | .table inner => do
      let inner ← nest? rest name v inner
      some (t.insert p (.table inner))
    | _ => none

def isArray : Value → Bool
  | .array _ => true
  | _ => false

def isTable : Value → Bool
  | .table _ => true
  | _ => false

def valueAt? (root : Table) (key : Key) : Option Value := do
  let table ← tableAt? root key.dropLast
  table.get? (← key.getLast?)

/-- Defines the value of an entry. A table that takes the place of an array is joint with the value
it is written in. -/
def defineEntry? (d : Definitions) (context : Key) (name : String) (v : Value) :
    Option Definitions := do
  let joins := isTable v && d.isReplaceable context name
  let d ← d.define? context name v
  some { d with joint := if joins then (context ++ [name]) :: d.joint else d.joint }

/-- Adds an entry that was defined at `inner` to the table that is collected for `context`. A joint
table gets the entry in any case, and stays the same in both. -/
def collect? (d : Definitions) (context inner : Key) (name : String) (v : Value) (table : Table) :
    Option (Table × Definitions) :=
  match d.joint.find? fun k => context.length < k.length && k.isPrefixOf inner with
  | none => do
    let table ← nest? (inner.drop context.length) name v table
    some (table, d)
  | some key => do
    let d ← d.write? inner name v
    let path := key.drop context.length
    let table ← nest? path.dropLast (← path.getLast?) (← valueAt? d.root key) table
    some (table, d)

mutual

/-- The value of an expression that is defined as `name` in the table at `context`. -/
def evaluate? (context : Key) (name : String) (inArray : Bool) (d : Definitions) :
    Expr → Option (Value × Definitions)
  | .literal v => some (v, d)
  | .array items => do
    let (values, d) ← evaluateItems? context name (d.noteArray (kindKey context name) true) items
    some (.array values, d)
  | .inline entries => do
    let key := context ++ [name]
    let d ← (d.imply key).openTable? key inArray
    let (table, d) ← evaluateEntries? key [] d entries
    some (.table table, d)

def evaluateItems? (context : Key) (name : String) (d : Definitions) :
    List Expr → Option (List Value × Definitions)
  | [] => some ([], d)
  | e :: rest => do
    let (v, d) ← evaluate? context name true d e
    let (vs, d) ← evaluateItems? context name d rest
    some (v :: vs, d)

/-- Defines entries in the table at `context`, and collects them in `table`. -/
def evaluateEntries? (context : Key) (table : Table) (d : Definitions) :
    List (Key × Expr) → Option (Table × Definitions)
  | [] => some (table, d)
  | (key, e) :: rest => do
    let name ← key.getLast?
    let (d, inner) ← d.openImplied? context key.dropLast
    let d := { d with keys := d.keys ++ [inner ++ [name]] }
    let (v, d) ← evaluate? inner name false d e
    let d ← d.defineEntry? inner name v
    let d := d.noteArray (kindKey inner name) (isArray v)
    let (table, d) ← d.collect? context inner name v table
    evaluateEntries? context table d rest

end

/-- Follows a statement in the table at `context`, and gives back the table for the next one. -/
def follow? (state : Definitions × Key) (s : Statement) : Option (Definitions × Key) :=
  let (d, context) := state
  match s with
  | .table key => do
    let d ← d.openTable? key false
    some ({ d.noteArray key false with keys := d.keys ++ [key] }, key)
  | .tableItem key => do
    let d ← d.openTable? key true
    some ({ d.noteArray key false with keys := d.keys ++ [key] }, key)
  | .entry key e => do
    -- Tables are joint no longer than the value that holds them is being read.
    let (_, d) ← evaluateEntries? context [] { d with joint := [] } [(key, e)]
    some (d, context)

end Definitions

/-- The definitions of a file, if it is well formed and consistent. -/
def read? (t : Text) : Option Definitions := do
  let statements ← parse? t
  let (d, _) ← statements.foldlM Definitions.follow? ({}, [])
  some d

/-! ## Keys as text -/

def escapeNameChar (c : Char) : List Char :=
  let code := fun (n : Nat) =>
    let digits := Nat.toDigits 16 n
    '\\' :: 'u' :: List.replicate (4 - digits.length) '0' ++ digits
  match [('\"', '\"'), ('\\', '\\'), ('\x08', 'b'), ('\t', 't'), ('\n', 'n'), ('\x0c', 'f'),
      ('\r', 'r')].lookup c with
  | some letter => ['\\', letter]
  | none => if c.toNat < 0x20 ∨ c.toNat = 0x7F then code c.toNat else [c]

/-- A name, in quotes unless it can do without. -/
def nameText (name : String) : String :=
  if name ≠ "" ∧ name.toList.all isBareKeyChar then name
  else "\"" ++ String.ofList (name.toList.flatMap escapeNameChar) ++ "\""

def keyText (key : Key) : String :=
  ".".intercalate (key.map nameText)

end Keyplan.Toml
