import AssetPlan.Toml.Content

/-! # Tables under construction

While a TOML document is read, its tables remember how they came to be: by a header of their own, on the
way to another table (`implicit`), or by a dotted key (`dotted`). A header may only reopen a table that
was made on the way, and a dotted key only goes through tables that have no header of their own. -/

namespace AssetPlan.Toml

/-- What a key holds while the document is read. -/
inductive Node where
  | leaf (content : Content)
  | table (implicit dotted : Bool) (entries : List (String × Node))
  /-- A list of tables; each came by a header. -/
  | tables (items : List (List (String × Node)))

/-- A table while the document is read. -/
structure Table where
  implicit : Bool
  dotted : Bool
  entries : Entries String Node

namespace Table

/-- A table that a header of its own makes. -/
def new : Table := ⟨false, false, []⟩

/-- The node of a table. -/
def node (t : Table) : Node := .table t.implicit t.dotted t.entries

/-- Changes the table at the end of a chain of keys. Those on the way are made if there are none; in a
    list of tables the last one is meant. -/
def updateAt? (dotted : Bool) (f : Table → Option Table) : List String → Table → Option Table
  | [], t => f t
  | key :: path, t =>
    match Entries.get? t.entries key with
    | none => do
      let sub ← updateAt? dotted f path ⟨true, dotted, []⟩
      some { t with entries := Entries.insert t.entries key sub.node }
    | some (.leaf _) => none
    | some (.tables items) =>
      match items.reverse with
      | [] => none
      | last :: before => do
        let sub ← updateAt? dotted f path ⟨false, false, last⟩
        some { t with entries := Entries.insert t.entries key (.tables (sub.entries :: before).reverse) }
    | some (.table implicit wasDotted entries) =>
      if dotted && ! implicit then none
      else do
        let sub ← updateAt? dotted f path ⟨implicit, wasDotted, entries⟩
        some { t with entries := Entries.insert t.entries key sub.node }

/-- Writes a value under a dotted key, whose last key must be free. -/
def insertDotted? (path : List String) (key : String) (content : Content) (t : Table) : Option Table :=
  updateAt? true (fun t =>
    if t.dotted == path.isEmpty || Entries.has t.entries key then none
    else some { t with entries := Entries.insert t.entries key (.leaf content) }) path t

/-- Takes a table out that a header opens: a new one, or one that was made on the way. -/
def open? (path : List String) (key : String) (root : Table) : Option (Table × Table) := do
  let root ← updateAt? false some path root
  let opened ← find root path
  let root ← updateAt? false (fun t => some { t with entries := Entries.erase t.entries key }) path root
  some (root, opened)
where
  /-- The table that the header opens, without its place. -/
  find : Table → List String → Option Table
    | t, [] =>
      match Entries.get? t.entries key with
      | none => some .new
      | some (.table true false entries) => some ⟨false, false, entries⟩
      | some _ => none
    | t, step :: path =>
      match Entries.get? t.entries step with
      | some (.table implicit dotted entries) => find ⟨implicit, dotted, entries⟩ path
      | some (.tables items) => find ⟨false, false, items.getLastD []⟩ path
      | _ => none

/-- Puts a table back under its key. -/
def close? (root : Table) (path : List String) (key : String) (table : Table) : Option Table :=
  updateAt? false (fun t => some { t with entries := Entries.insert t.entries key table.node }) path root

/-- Adds a table to the list under its key. -/
def append? (root : Table) (path : List String) (key : String) (table : Table) : Option Table :=
  updateAt? false (fun t =>
    match Entries.get? t.entries key with
    | none => some { t with entries := Entries.insert t.entries key (.tables [table.entries]) }
    | some (.tables items) =>
      some { t with entries := Entries.insert t.entries key (.tables (items ++ [table.entries])) }
    | some _ => none) path root

end Table

mutual

/-- The finished content of a node. -/
def Node.content : Node → Content
  | .leaf content => content
  | .table _ _ entries => .table (contentsOf entries)
  | .tables items => .array (tablesOf items)
termination_by structural n => n

/-- The finished entries of a table. -/
def contentsOf : List (String × Node) → List (String × Content)
  | [] => []
  | (k, n) :: rest => (k, n.content) :: contentsOf rest
termination_by structural es => es

/-- The finished tables of a list. -/
def tablesOf : List (List (String × Node)) → List Content
  | [] => []
  | entries :: rest => .table (contentsOf entries) :: tablesOf rest
termination_by structural ts => ts

end

end AssetPlan.Toml
