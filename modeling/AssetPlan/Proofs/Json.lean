import AssetPlan.Json.Reader
import AssetPlan.Proofs.Value.WellKeyed
import AssetPlan.Value.Json

/-! # JSON that is read has no key twice

Whatever a text says, no object of the value that it writes has a key twice: a member is written in the place of an
earlier one with its key. That holds of every value that the reader has put together so far, on the stack and off it,
and each token keeps it so. The configuration value of such a value has no key twice either. -/

namespace AssetPlan.Json
open Entries (KeyedWith)
variable {values : List Json} {members : Entries String Json} {v : Json}

/-- No object in the value has a key twice. -/
inductive WellKeyed : Json → Prop where
  | null : WellKeyed .null
  | bool (b : Bool) : WellKeyed (.bool b)
  | number (n : Number) : WellKeyed (.number n)
  | string (s : String) : WellKeyed (.string s)
  | array {items : List Json} (h : ∀ v ∈ items, WellKeyed v) : WellKeyed (.array items)
  | object {members : Entries String Json} (hkeys : Entries.WellKeyed members) (h : ∀ e ∈ members, WellKeyed e.2) :
    WellKeyed (.object members)

theorem wellKeyed_object (h : KeyedWith WellKeyed members) : WellKeyed (.object members) := .object h.wellKeyed h.values

/-! ### Tokens -/

/-- A token that writes a value writes one without a key twice. -/
def Token.WellKeyed : Token → Prop
  | .value scalar => scalar.WellKeyed
  | _ => True

namespace Token
variable {token : Token} {read tokens : List Token} {fuel : Nat} {cs : List Char}

theorem wellKeyed_of_ofMark? {c : Char} (h : ofMark? c = some token) : token.WellKeyed := by
  unfold ofMark? at h
  split at h <;> cases h <;> trivial

theorem wellKeyed_of_ofWord? (h : ofWord? cs = some token) : token.WellKeyed := by
  unfold ofWord? at h
  split at h
  · cases h
    exact .null
  · split at h
    · cases h
      exact .bool true
    · split at h
      · cases h
        exact .bool false
      · cases h

theorem wellKeyed_of_readAll? (hread : ∀ token ∈ read, token.WellKeyed) (h : readAll? read fuel cs = some tokens) :
    ∀ token ∈ tokens, token.WellKeyed := by
  induction fuel generalizing read cs with
  | zero =>
    cases cs with
    | nil =>
      cases h
      exact fun token hmem => hread token (List.mem_reverse.mp hmem)
    | cons c rest => cases h
  | succ fuel ih =>
    have hcons : ∀ token : Token, token.WellKeyed → ∀ t ∈ token :: read, t.WellKeyed :=
      fun token ht => List.forall_mem_cons.mpr ⟨ht, hread⟩
    cases cs with
    | nil =>
      cases h
      exact fun token hmem => hread token (List.mem_reverse.mp hmem)
    | cons c rest =>
      rw [readAll?] at h
      split at h
      · exact ih hread h
      · split at h
        · obtain ⟨⟨text, rest'⟩, -, h⟩ := Option.bind_eq_some_iff.mp h
          exact ih (hcons (.value (.string text)) (Json.WellKeyed.string text)) h
        · split at h
          · obtain ⟨number, -, h⟩ := Option.bind_eq_some_iff.mp h
            exact ih (hcons (.value (.number number)) (Json.WellKeyed.number number)) h
          · split at h
            · obtain ⟨word, hword, h⟩ := Option.bind_eq_some_iff.mp h
              exact ih (hcons word (wellKeyed_of_ofWord? hword)) h
            · obtain ⟨mark, hmark, h⟩ := Option.bind_eq_some_iff.mp h
              exact ih (hcons mark (wellKeyed_of_ofMark? hmark)) h

theorem wellKeyed_of_ofText? (h : ofText? cs = some tokens) : ∀ token ∈ tokens, token.WellKeyed :=
  wellKeyed_of_readAll? (List.forall_mem_nil _) h

end Token

/-! ### The reader -/

/-- What an open array or object holds has no key twice. -/
def Frame.WellKeyed : Frame → Prop
  | .array items => ∀ v ∈ items, v.WellKeyed
  | .object members _ => KeyedWith Json.WellKeyed members

/-- What was read last has no key twice. -/
def Progress.WellKeyed : Progress → Prop
  | .key members => KeyedWith Json.WellKeyed members
  | .colon members _ => KeyedWith Json.WellKeyed members
  | .complete v => v.WellKeyed
  | _ => True

/-- Nothing that was read so far has a key twice. -/
structure Sound (progress : Progress) (stack : List Frame) : Prop where
  progress : progress.WellKeyed
  stack : ∀ frame ∈ stack, frame.WellKeyed

section Reader
variable {progress progress' : Progress} {stack stack' : List Frame} {token : Token} {tokens : List Token} {depth : Nat}
  {frame : Frame}

theorem Sound.push (h : Sound progress stack) (hp : progress'.WellKeyed) (hf : frame.WellKeyed) :
    Sound progress' (frame :: stack) := ⟨hp, List.forall_mem_cons.mpr ⟨hf, h.stack⟩⟩

theorem Sound.pop (h : Sound progress (frame :: stack)) (hp : progress'.WellKeyed) : Sound progress' stack :=
  ⟨hp, (List.forall_mem_cons.mp h.stack).2⟩

theorem Sound.top (h : Sound progress (frame :: stack)) : frame.WellKeyed := (List.forall_mem_cons.mp h.stack).1

theorem Sound.items (h : Sound (.complete v) stack) (hvalues : (Frame.array values).WellKeyed) :
    (Frame.array (v :: values)).WellKeyed := List.forall_mem_cons.mpr ⟨h.progress, hvalues⟩

theorem sound_valueStep? (hs : Sound progress stack) (ht : token.WellKeyed)
    (h : valueStep? depth stack token = some (progress', stack')) : Sound progress' stack' := by
  unfold valueStep? at h
  split at h
  · cases h
    exact ⟨ht, hs.stack⟩
  · split at h
    · cases h
      exact hs.push trivial nofun
    · cases h
  · split at h
    · cases h
      exact ⟨trivial, hs.stack⟩
    · cases h
  · cases h

/-- A token keeps what was read without a key twice. -/
theorem sound_step? (hs : Sound progress stack) (ht : token.WellKeyed)
    (h : step? depth progress stack token = some (progress', stack')) : Sound progress' stack' := by
  unfold step? at h
  split at h
  · exact sound_valueStep? hs ht h
  · cases h
    exact hs.pop (.array nofun)
  · exact sound_valueStep? hs ht h
  · cases h
    exact ⟨wellKeyed_object Entries.keyedWith_nil, hs.stack⟩
  · cases h
    exact ⟨Entries.keyedWith_nil, hs.stack⟩
  · cases h
    exact ⟨hs.progress, hs.stack⟩
  · cases h
    exact hs.push trivial hs.progress
  · cases h
    exact (hs.pop hs.progress).push trivial (hs.items hs.top)
  · cases h
    exact hs.pop (.array fun v hv => hs.items hs.top v (List.mem_reverse.mp hv))
  · cases h
    exact hs.pop (hs.top.insert _ hs.progress)
  · cases h
    exact hs.pop (wellKeyed_object (hs.top.insert _ hs.progress))
  · cases h

theorem wellKeyed_of_ofTokens? (hs : Sound progress stack) (ht : ∀ token ∈ tokens, token.WellKeyed)
    (h : ofTokens? depth progress stack tokens = some v) : v.WellKeyed := by
  induction tokens generalizing progress stack with
  | nil =>
    unfold ofTokens? at h
    split at h
    · cases h
      exact hs.progress
    · cases h
    · rename_i htokens
      cases htokens
  | cons token rest ih =>
    obtain ⟨htoken, hrest⟩ := List.forall_mem_cons.mp ht
    rw [ofTokens?] at h
    obtain ⟨⟨progress', stack'⟩, hstep, h⟩ := Option.bind_eq_some_iff.mp h
    exact ih (sound_step? hs htoken hstep) hrest h

theorem wellKeyed_of_ofText? {text : List Char} (h : ofText? depth text = some v) : v.WellKeyed := by
  obtain ⟨tokens, htokens, h⟩ := Option.bind_eq_some_iff.mp h
  have hstart : Sound .value [] := ⟨trivial, List.forall_mem_nil _⟩
  exact wellKeyed_of_ofTokens? hstart (Token.wellKeyed_of_ofText? htokens) h

end Reader

/-! ### The configuration value -/

theorem ofJsonItems_eq (items : List Json) : Value.ofJsonItems items = items.map Value.ofJson := by
  induction items with
  | nil => rfl
  | cons v rest ih => exact congrArg (Value.ofJson v :: ·) ih

theorem ofJsonMembers_eq (members : Entries String Json) :
    Value.ofJsonMembers members = Entries.mapValues Value.ofJson members := by
  induction members with
  | nil => rfl
  | cons e rest ih => exact congrArg ((e.1, Value.ofJson e.2) :: ·) ih

theorem WellKeyed.ofJson (h : v.WellKeyed) : (Value.ofJson v).WellKeyed := by
  induction h with
  | null | bool | number | string => trivial
  | @array items _ ih =>
    refine Value.wellKeyed_list_iff.mpr fun w hw => ?_
    rw [ofJsonItems_eq] at hw
    obtain ⟨j, hj, rfl⟩ := List.mem_map.mp hw
    exact ih j hj
  | @object members hkeys _ ih =>
    have hmembers : KeyedWith (fun j => (Value.ofJson j).WellKeyed) members := ⟨hkeys, ih⟩
    rw [Value.ofJson, ofJsonMembers_eq]
    exact Value.wellKeyed_mapping_iff.mpr (hmembers.mapValues fun _ hj => hj)

end AssetPlan.Json
