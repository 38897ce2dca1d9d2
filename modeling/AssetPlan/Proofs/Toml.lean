import AssetPlan.Proofs.Json
import AssetPlan.Toml.Reader

/-! # TOML that is read has no key twice

A key of a table is written once: a second value is refused, and a header or a dotted key that goes through a table again
writes that table in its place. So no table that the reader has put together so far has a key twice, and neither has the
JSON value that stands for the whole document. -/

namespace AssetPlan.Toml
open Entries (KeyedWith)

/-! ### Contents -/

namespace Content
variable {c : Content} {v : Json}

/-- No table in the content has a key twice. -/
inductive WellKeyed : Content → Prop where
  | plain {v : Json} (h : v.WellKeyed) : WellKeyed (.plain v)
  | datetime (d : Datetime) : WellKeyed (.datetime d)
  | array {items : List Content} (h : ∀ c ∈ items, WellKeyed c) : WellKeyed (.array items)
  | table {entries : Entries String Content} (hkeys : Entries.WellKeyed entries) (h : ∀ e ∈ entries, WellKeyed e.2) :
    WellKeyed (.table entries)

theorem wellKeyed_table {entries : Entries String Content} (h : KeyedWith WellKeyed entries) : WellKeyed (.table entries) :=
  .table h.wellKeyed h.values

theorem mem_itemsToJson? {items : List Content} {values : List Json} (h : itemsToJson? items = some values) (hv : v ∈ values) :
    ∃ c ∈ items, c.toJson? = some v := by
  induction items generalizing values with
  | nil =>
    cases h
    cases hv
  | cons c rest ih =>
    obtain ⟨w, hw, h⟩ := Option.bind_eq_some_iff.mp h
    obtain ⟨ws, hws, h⟩ := Option.bind_eq_some_iff.mp h
    cases h
    rcases List.mem_cons.mp hv with rfl | hv
    · exact ⟨c, List.mem_cons_self, hw⟩
    · obtain ⟨c', hc', hv⟩ := ih hws hv
      exact ⟨c', List.mem_cons_of_mem _ hc', hv⟩

theorem membersToJson?_eq_some {entries : Entries String Content} {members : Entries String Json}
    (h : membersToJson? entries = some members) :
    Entries.keys members = Entries.keys entries ∧ ∀ m ∈ members, ∃ e ∈ entries, e.2.toJson? = some m.2 := by
  induction entries generalizing members with
  | nil =>
    cases h
    exact ⟨rfl, nofun⟩
  | cons e rest ih =>
    obtain ⟨key, c⟩ := e
    obtain ⟨v, hv, h⟩ := Option.bind_eq_some_iff.mp h
    obtain ⟨more, hmore, h⟩ := Option.bind_eq_some_iff.mp h
    cases h
    obtain ⟨hkeys, hvalues⟩ := ih hmore
    refine ⟨congrArg (key :: ·) hkeys, List.forall_mem_cons.mpr ⟨⟨_, List.mem_cons_self, hv⟩, fun m hm => ?_⟩⟩
    obtain ⟨e', he', hm'⟩ := hvalues m hm
    exact ⟨e', List.mem_cons_of_mem _ he', hm'⟩

theorem WellKeyed.toJson? (h : c.WellKeyed) (hv : c.toJson? = some v) : v.WellKeyed := by
  induction h generalizing v with
  | plain h =>
    cases hv
    exact h
  | datetime d =>
    cases hv
    exact .string _
  | array _ ih =>
    obtain ⟨values, hvalues, rfl⟩ := Option.map_eq_some_iff.mp hv
    refine .array fun w hw => ?_
    obtain ⟨c, hc, hw⟩ := mem_itemsToJson? hvalues hw
    exact ih c hc hw
  | table hkeys _ ih =>
    rw [Content.toJson?] at hv
    split at hv
    · obtain ⟨d, -, rfl⟩ := Option.map_eq_some_iff.mp hv
      exact .string _
    · obtain ⟨members, hmembers, rfl⟩ := Option.map_eq_some_iff.mp hv
      obtain ⟨hsame, hvalues⟩ := membersToJson?_eq_some hmembers
      refine .object ((congrArg List.Nodup hsame).mpr hkeys) fun m hm => ?_
      obtain ⟨e, he, hm⟩ := hvalues m hm
      exact ih e he hm

end Content

/-! ### Scalars -/

section Scalars
variable {cs rest : List Char} {v : Json} {c : Content}

theorem wellKeyed_of_ofDouble? {d : Double} (h : ofDouble? d = some v) : v.WellKeyed := by
  unfold ofDouble? at h
  split at h
  · cases h
    exact .number _
  · split at h
    · cases h
      exact .null
    · cases h

theorem wellKeyed_of_ofInteger? {negative : Bool} {magnitude : Nat} (h : ofInteger? negative magnitude = some v) :
    v.WellKeyed := by
  unfold ofInteger? at h
  split at h
  all_goals
    split at h
    · cases h
      exact .number _
    · cases h

theorem wellKeyed_of_based? {base : Nat} (h : based? base cs = some (v, rest)) : v.WellKeyed := by
  obtain ⟨ds, -, h⟩ := Option.bind_eq_some_iff.mp h
  obtain ⟨w, hw, h⟩ := Option.bind_eq_some_iff.mp h
  cases h
  exact wellKeyed_of_ofInteger? hw

theorem wellKeyed_of_decimal? (h : decimal? cs = some (v, rest)) : v.WellKeyed := by
  obtain ⟨⟨whole, cs'⟩, -, h⟩ := Option.bind_eq_some_iff.mp h
  dsimp only at h
  split at h
  · obtain ⟨⟨fraction, rest'⟩, -, h⟩ := Option.bind_eq_some_iff.mp h
    obtain ⟨w, hw, h⟩ := Option.bind_eq_some_iff.mp h
    cases h
    exact wellKeyed_of_ofDouble? hw
  · split at h
    · obtain ⟨w, hw, h⟩ := Option.bind_eq_some_iff.mp h
      cases h
      exact wellKeyed_of_ofDouble? hw
    · obtain ⟨w, hw, h⟩ := Option.bind_eq_some_iff.mp h
      cases h
      exact wellKeyed_of_ofInteger? hw

theorem wellKeyed_of_number? (h : number? cs = some (v, rest)) : v.WellKeyed := by
  unfold number? at h
  split at h
  · exact wellKeyed_of_based? h
  · exact wellKeyed_of_based? h
  · exact wellKeyed_of_based? h
  · dsimp only at h
    split at h
    · cases h
      exact .null
    · cases h
      exact .null
    · exact wellKeyed_of_decimal? h

theorem wellKeyed_of_scalar? (h : scalar? cs = some (c, rest)) : c.WellKeyed := by
  unfold scalar? at h
  split at h
  · cases h
  · split at h
    · obtain ⟨_, -, h⟩ := Option.map_eq_some_iff.mp h
      cases h
      exact .plain (.string _)
    · split at h
      · obtain ⟨_, -, h⟩ := Option.map_eq_some_iff.mp h
        cases h
        exact .plain (.bool true)
      · split at h
        · obtain ⟨_, -, h⟩ := Option.map_eq_some_iff.mp h
          cases h
          exact .plain (.bool false)
        · split at h
          · cases h
            exact .datetime _
          · obtain ⟨⟨v, rest'⟩, hnumber, h⟩ := Option.map_eq_some_iff.mp h
            cases h
            exact .plain (wellKeyed_of_number? hnumber)

end Scalars

/-! ### Tables under construction -/

namespace Node
variable {n : Node} {entries : Entries String Node}

/-- No table in the node has a key twice. -/
inductive WellKeyed : Node → Prop where
  | leaf {c : Content} (h : c.WellKeyed) : WellKeyed (.leaf c)
  | table {implicit dotted : Bool} {entries : Entries String Node} (hkeys : Entries.WellKeyed entries)
    (h : ∀ e ∈ entries, WellKeyed e.2) : WellKeyed (.table implicit dotted entries)
  | tables {items : List (Entries String Node)} (hkeys : ∀ entries ∈ items, Entries.WellKeyed entries)
    (h : ∀ entries ∈ items, ∀ e ∈ entries, WellKeyed e.2) : WellKeyed (.tables items)

theorem wellKeyed_table_iff {implicit dotted : Bool} :
    (Node.table implicit dotted entries).WellKeyed ↔ KeyedWith WellKeyed entries := by
  refine ⟨fun h => ?_, fun h => .table h.wellKeyed h.values⟩
  cases h with
  | table hkeys h => exact ⟨hkeys, h⟩

theorem wellKeyed_tables_iff {items : List (Entries String Node)} :
    (Node.tables items).WellKeyed ↔ ∀ entries ∈ items, KeyedWith WellKeyed entries := by
  refine ⟨fun h => ?_, fun h => .tables (fun es hes => (h es hes).wellKeyed) fun es hes => (h es hes).values⟩
  cases h with
  | tables hkeys h => exact fun es hes => ⟨hkeys es hes, h es hes⟩

theorem contentsOf_eq (entries : Entries String Node) : contentsOf entries = Entries.mapValues content entries := by
  induction entries with
  | nil => rfl
  | cons e rest ih => exact congrArg ((e.1, e.2.content) :: ·) ih

theorem tablesOf_eq (items : List (Entries String Node)) : tablesOf items = items.map fun es => .table (contentsOf es) := by
  induction items with
  | nil => rfl
  | cons es rest ih => exact congrArg (Content.table (contentsOf es) :: ·) ih

theorem WellKeyed.content (h : n.WellKeyed) : n.content.WellKeyed := by
  have entriesOf : ∀ {es : Entries String Node}, Entries.WellKeyed es → (∀ e ∈ es, e.2.content.WellKeyed) →
      (Content.table (contentsOf es)).WellKeyed := by
    intro es hkeys hvalues
    have hes : KeyedWith (fun n : Node => n.content.WellKeyed) es := ⟨hkeys, hvalues⟩
    rw [contentsOf_eq]
    exact Content.wellKeyed_table (hes.mapValues fun _ hn => hn)
  induction h with
  | leaf h => exact h
  | table hkeys _ ih => exact entriesOf hkeys ih
  | tables hkeys _ ih =>
    refine .array fun c hc => ?_
    rw [tablesOf_eq] at hc
    obtain ⟨es, hes, rfl⟩ := List.mem_map.mp hc
    exact entriesOf (hkeys es hes) (ih es hes)

end Node

namespace Table
variable {t t' root opened : Table} {dotted : Bool} {f : Table → Option Table} {path : List String} {key : String}

/-- No table in the table has a key twice. -/
def WellKeyed (t : Table) : Prop := KeyedWith Node.WellKeyed t.entries

theorem wellKeyed_new : new.WellKeyed := Entries.keyedWith_nil

theorem WellKeyed.node (h : t.WellKeyed) : t.node.WellKeyed := Node.wellKeyed_table_iff.mpr h

theorem WellKeyed.updateAt? (hf : ∀ t t', t.WellKeyed → f t = some t' → t'.WellKeyed) (ht : t.WellKeyed)
    (h : updateAt? dotted f path t = some t') : t'.WellKeyed := by
  induction path generalizing t t' with
  | nil => exact hf t t' ht h
  | cons key path ih =>
    rw [Table.updateAt?] at h
    split at h
    · obtain ⟨sub, hsub, h⟩ := Option.bind_eq_some_iff.mp h
      cases h
      have hmade : WellKeyed ⟨true, dotted, []⟩ := Entries.keyedWith_nil
      have hsub' : sub.WellKeyed := ih hmade hsub
      exact ht.insert key hsub'.node
    · cases h
    · rename_i items hitems
      have hkeyed := Node.wellKeyed_tables_iff.mp (ht.get? hitems)
      split at h
      · cases h
      · rename_i last before hreverse
        -- A path through an array of tables goes through the last of them.
        have hmem : ∀ entries ∈ last :: before, KeyedWith Node.WellKeyed entries := by
          intro entries hentries
          rw [← hreverse] at hentries
          exact hkeyed entries (List.mem_reverse.mp hentries)
        obtain ⟨hlast, hbefore⟩ := List.forall_mem_cons.mp hmem
        obtain ⟨sub, hsub, h⟩ := Option.bind_eq_some_iff.mp h
        cases h
        have hmeant : WellKeyed ⟨false, false, last⟩ := hlast
        have hsub' : sub.WellKeyed := ih hmeant hsub
        have hmore : ∀ entries ∈ sub.entries :: before, KeyedWith Node.WellKeyed entries :=
          List.forall_mem_cons.mpr ⟨hsub', hbefore⟩
        refine ht.insert key (Node.wellKeyed_tables_iff.mpr fun entries hentries => ?_)
        exact hmore entries (List.mem_reverse.mp hentries)
    · rename_i implicit wasDotted entries hentries
      split at h
      · cases h
      · obtain ⟨sub, hsub, h⟩ := Option.bind_eq_some_iff.mp h
        cases h
        have hsub' : sub.WellKeyed := ih (Node.wellKeyed_table_iff.mp (ht.get? hentries)) hsub
        exact ht.insert key hsub'.node

theorem WellKeyed.insertDotted? {c : Content} (ht : t.WellKeyed) (hc : c.WellKeyed)
    (h : t.insertDotted? path key c = some t') : t'.WellKeyed := by
  refine ht.updateAt? (fun t t' ht h => ?_) h
  split at h
  · cases h
  · cases h
    exact ht.insert key (.leaf hc)

theorem WellKeyed.find (ht : t.WellKeyed) (h : open?.find key t path = some opened) : opened.WellKeyed := by
  induction path generalizing t with
  | nil =>
    unfold open?.find at h
    split at h
    · cases h
      exact wellKeyed_new
    · rename_i entries hentries
      cases h
      exact Node.wellKeyed_table_iff.mp (ht.get? hentries)
    · cases h
  | cons step path ih =>
    unfold open?.find at h
    split at h
    · rename_i implicit dotted entries hentries
      exact ih (Node.wellKeyed_table_iff.mp (ht.get? hentries)) h
    · rename_i items hitems
      have hkeyed := Node.wellKeyed_tables_iff.mp (ht.get? hitems)
      refine ih ?_ h
      show KeyedWith Node.WellKeyed (items.getLastD [])
      rcases List.eq_nil_or_concat items with rfl | ⟨before, last, rfl⟩
      · exact Entries.keyedWith_nil
      · simpa using hkeyed last (by simp)
    · cases h

theorem WellKeyed.open? {root' : Table} (ht : root.WellKeyed) (h : open? path key root = some (root', opened)) :
    root'.WellKeyed ∧ opened.WellKeyed := by
  obtain ⟨middle, hmiddle, h⟩ := Option.bind_eq_some_iff.mp h
  obtain ⟨found, hfound, h⟩ := Option.bind_eq_some_iff.mp h
  obtain ⟨erased, herased, h⟩ := Option.bind_eq_some_iff.mp h
  cases h
  -- The way to the table is made first; then the table is taken out while its lines are read.
  have hmade : middle.WellKeyed := by
    refine ht.updateAt? (fun t t' ht h => ?_) hmiddle
    cases h
    exact ht
  refine ⟨hmade.updateAt? (fun t t' ht h => ?_) herased, hmade.find hfound⟩
  cases h
  exact ht.erase key

theorem WellKeyed.close? (hroot : root.WellKeyed) (ht : t.WellKeyed) (h : root.close? path key t = some t') :
    t'.WellKeyed := by
  refine hroot.updateAt? (fun t'' t' ht'' h => ?_) h
  cases h
  exact ht''.insert key ht.node

theorem WellKeyed.append? (hroot : root.WellKeyed) (ht : t.WellKeyed) (h : root.append? path key t = some t') :
    t'.WellKeyed := by
  refine hroot.updateAt? (fun t'' t' ht'' h => ?_) h
  split at h
  · cases h
    exact ht''.insert key (Node.wellKeyed_tables_iff.mpr (List.forall_mem_singleton.mpr ht))
  · rename_i items hitems
    cases h
    refine ht''.insert key (Node.wellKeyed_tables_iff.mpr (List.forall_mem_append.mpr ⟨?_, List.forall_mem_singleton.mpr ht⟩))
    exact Node.wellKeyed_tables_iff.mp (ht''.get? hitems)
  · cases h

end Table

/-! ### Values -/

mutual

theorem wellKeyed_of_value? : ∀ {fuel depth : Nat} {cs rest : List Char} {c : Content},
    value? fuel depth cs = some (c, rest) → c.WellKeyed
  | 0, _, _, _, _, h => nomatch h
  | fuel + 1, depth, cs, rest, c, h => by
    unfold value? at h
    split at h
    · split at h
      · exact wellKeyed_of_items? (List.forall_mem_nil _) h
      · cases h
    · split at h
      · split at h
        · cases h
          exact Content.wellKeyed_table Entries.keyedWith_nil
        · exact wellKeyed_of_pairs? Table.wellKeyed_new h
      · cases h
    · exact wellKeyed_of_scalar? h

theorem wellKeyed_of_items? : ∀ {fuel depth : Nat} {read : List Content} {cs rest : List Char} {c : Content},
    (∀ c ∈ read, c.WellKeyed) → items? fuel depth read cs = some (c, rest) → c.WellKeyed
  | 0, _, _, _, _, _, _, h => nomatch h
  | fuel + 1, depth, read, cs, rest, c, hread, h => by
    have hdone : ∀ {items : List Content}, (∀ c ∈ items, c.WellKeyed) → (Content.array items.reverse).WellKeyed :=
      fun h => .array fun c hc => h c (List.mem_reverse.mp hc)
    unfold items? at h
    obtain ⟨cs', -, h⟩ := Option.bind_eq_some_iff.mp h
    split at h
    · cases h
      exact hdone hread
    · obtain ⟨⟨item, rest'⟩, hitem, h⟩ := Option.bind_eq_some_iff.mp h
      obtain ⟨rest'', -, h⟩ := Option.bind_eq_some_iff.mp h
      have hmore := List.forall_mem_cons.mpr ⟨wellKeyed_of_value? hitem, hread⟩
      split at h
      · exact wellKeyed_of_items? hmore h
      · cases h
        exact hdone hmore
      · cases h

theorem wellKeyed_of_pairs? : ∀ {fuel depth : Nat} {read : Table} {cs rest : List Char} {c : Content},
    read.WellKeyed → pairs? fuel depth read cs = some (c, rest) → c.WellKeyed
  | 0, _, _, _, _, _, _, h => nomatch h
  | fuel + 1, depth, read, cs, rest, c, hread, h => by
    unfold pairs? at h
    obtain ⟨⟨path, key, rest₁⟩, -, h⟩ := Option.bind_eq_some_iff.mp h
    obtain ⟨rest₂, -, h⟩ := Option.bind_eq_some_iff.mp h
    obtain ⟨⟨value, rest₃⟩, hvalue, h⟩ := Option.bind_eq_some_iff.mp h
    obtain ⟨read', hread', h⟩ := Option.bind_eq_some_iff.mp h
    have hmore := hread.insertDotted? (wellKeyed_of_value? hvalue) hread'
    split at h
    · exact wellKeyed_of_pairs? hmore h
    · cases h
      exact hmore.node.content
    · cases h

end

/-! ### Documents -/

namespace Document
variable {d d' : Document} {cs rest : List Char} {path : List String} {key : String}

/-- No table of the document has a key twice. -/
structure WellKeyed (d : Document) : Prop where
  root : d.root.WellKeyed
  current : d.current.WellKeyed

theorem WellKeyed.settle? {root : Table} (hd : d.WellKeyed) (h : d.settle? = some root) : root.WellKeyed := by
  unfold Document.settle? at h
  split at h
  · cases h
    exact hd.current
  · exact hd.root.close? hd.current h
  · exact hd.root.append? hd.current h

theorem WellKeyed.openTable? (hd : d.WellKeyed) (h : d.openTable? path key = some d') : d'.WellKeyed := by
  obtain ⟨root, hroot, h⟩ := Option.bind_eq_some_iff.mp h
  obtain ⟨⟨root', current⟩, hopen, h⟩ := Option.bind_eq_some_iff.mp h
  cases h
  obtain ⟨hroot', hcurrent⟩ := (hd.settle? hroot).open? hopen
  exact ⟨hroot', hcurrent⟩

theorem WellKeyed.openItem? (hd : d.WellKeyed) (h : d.openItem? path key = some d') : d'.WellKeyed := by
  obtain ⟨root, hroot, h⟩ := Option.bind_eq_some_iff.mp h
  obtain ⟨_, -, h⟩ := Option.bind_eq_some_iff.mp h
  cases h
  exact ⟨hd.settle? hroot, Table.wellKeyed_new⟩

theorem WellKeyed.header? (hd : d.WellKeyed) (h : d.header? cs = some (d', rest)) : d'.WellKeyed := by
  unfold Document.header? at h
  split at h
  · obtain ⟨⟨path, key, rest₁⟩, -, h⟩ := Option.bind_eq_some_iff.mp h
    dsimp only at h
    split at h
    · obtain ⟨opened, hopened, h⟩ := Option.bind_eq_some_iff.mp h
      obtain ⟨_, -, h⟩ := Option.bind_eq_some_iff.mp h
      cases h
      exact hd.openItem? hopened
    · cases h
  · obtain ⟨⟨path, key, rest₁⟩, -, h⟩ := Option.bind_eq_some_iff.mp h
    dsimp only at h
    split at h
    · obtain ⟨opened, hopened, h⟩ := Option.bind_eq_some_iff.mp h
      obtain ⟨_, -, h⟩ := Option.bind_eq_some_iff.mp h
      cases h
      exact hd.openTable? hopened
    · cases h

theorem WellKeyed.pair? (hd : d.WellKeyed) (h : d.pair? cs = some (d', rest)) : d'.WellKeyed := by
  obtain ⟨⟨path, key, rest₁⟩, -, h⟩ := Option.bind_eq_some_iff.mp h
  obtain ⟨rest₂, -, h⟩ := Option.bind_eq_some_iff.mp h
  obtain ⟨⟨value, rest₃⟩, hvalue, h⟩ := Option.bind_eq_some_iff.mp h
  obtain ⟨current, hcurrent, h⟩ := Option.bind_eq_some_iff.mp h
  obtain ⟨_, -, h⟩ := Option.bind_eq_some_iff.mp h
  cases h
  exact ⟨hd.root, hd.current.insertDotted? (wellKeyed_of_value? hvalue) hcurrent⟩

theorem WellKeyed.lines? {fuel : Nat} (hd : d.WellKeyed) (h : lines? fuel d cs = some d') : d'.WellKeyed := by
  induction fuel generalizing d cs with
  | zero =>
    unfold Document.lines? at h
    split at h
    · cases h
      exact hd
    · cases h
    all_goals contradiction
  | succ fuel ih =>
    unfold Document.lines? at h
    split at h
    · cases h
      exact hd
    · cases h
    · rename_i hfuel _
      cases hfuel
      obtain ⟨rest, -, h⟩ := Option.bind_eq_some_iff.mp h
      exact ih hd h
    · rename_i hfuel _
      cases hfuel
      obtain ⟨⟨d₁, rest⟩, hheader, h⟩ := Option.bind_eq_some_iff.mp h
      exact ih (hd.header? hheader) h
    · rename_i hfuel _ _ _
      cases hfuel
      split at h
      · exact ih hd h
      · obtain ⟨⟨d₁, rest⟩, hpair, h⟩ := Option.bind_eq_some_iff.mp h
        exact ih (hd.pair? hpair) h

end Document

theorem wellKeyed_of_ofText? {text : List Char} {v : Json} (h : ofText? text = some v) : v.WellKeyed := by
  unfold ofText? at h
  obtain ⟨d, hd, h⟩ := Option.bind_eq_some_iff.mp h
  obtain ⟨root, hroot, h⟩ := Option.bind_eq_some_iff.mp h
  have hstart : Document.start.WellKeyed := ⟨Table.wellKeyed_new, Table.wellKeyed_new⟩
  exact ((hstart.lines? hd).settle? hroot).node.content.toJson? h

end AssetPlan.Toml
