import AssetPlan.Routing.Compile

/-! # Sections that declare alike

Of a section of `files` three keys are read, and a null one counts as one that is not set. Two `files` sections
with the same names in the same order, in which the same is set under those keys, give the same routing table
with the same conflicts, or the same error (`ofFiles_congr`). -/

namespace AssetPlan.Routing

/-- The keys of a section of `files` that are read. -/
def sectionKeys : List String := ["joinTo", "pluginHelpers", "entryPoints"]

/-- Two values in place of a section that declare the same. -/
inductive Alike : Value → Value → Prop where
  | refl (v : Value) : Alike v v
  | fields {fields fields' : Mapping} (h : ∀ key ∈ sectionKeys, setting? fields key = setting? fields' key) :
    Alike (.mapping fields) (.mapping fields')

/-- Two `files` sections that declare the same under the same names. -/
inductive AllAlike : Mapping → Mapping → Prop where
  | nil : AllAlike [] []
  | cons (name : String) {v v' : Value} {rest rest' : Mapping} (first : Alike v v') (others : AllAlike rest rest') :
    AllAlike ((name, v) :: rest) ((name, v') :: rest')

variable {r : Routing} {type : AssetType} {fields fields' files files' : Mapping}

theorem addJoins_congr (h : ∀ key ∈ sectionKeys, setting? fields key = setting? fields' key) :
    r.addJoins type fields = r.addJoins type fields' := by
  unfold addJoins joinedBundles helpers
  rw [h "joinTo" (by decide), h "pluginHelpers" (by decide)]

/-- What is left to be read of a section after its joined outputs were added. -/
def entryPointsOf (s : AssetType × Mapping) : AssetType × Option Value := (s.1, setting? s.2 "entryPoints")

/-- The entry points that a value declares. -/
def addDeclared (watched : List String) (r : Routing) (s : AssetType × Option Value) : Reported Routing :=
  match s.2 with
  | none => return r
  | some v =>
    if ! s.1.hasEntryPoints then do
      Reported.report [.conflict (.entryPointsUnsupported s.1)]
      return r
    else
      match v with
      | .mapping entries => entries.foldlM (addEntryPoint watched s.1) r
      | v => Reported.ofExcept (.error (.structural ["files", s.1.name, "entryPoints"] (.ofKind .mapping v)))

/-- The routing after the joined outputs were added, and what is left to be read of the sections. -/
def remaining (made : Routing × List (AssetType × Mapping)) : Routing × List (AssetType × Option Value) :=
  (made.1, made.2.map entryPointsOf)

/-- Sections that declare alike in front of others: the others are read in the state that the first leaves. -/
theorem remaining_congr {rest rest' : Mapping} (hrest : ∀ r, remaining <$> addAllJoins r rest = remaining <$> addAllJoins r rest')
    (hjoins : r.addJoins type fields = r.addJoins type fields')
    (hentries : entryPointsOf (type, fields) = entryPointsOf (type, fields')) :
    remaining <$> (r.addJoins type fields >>= fun r => do
      let (r, sections) ← addAllJoins r rest
      return (r, (type, fields) :: sections)) =
    remaining <$> (r.addJoins type fields' >>= fun r => do
      let (r, sections) ← addAllJoins r rest'
      return (r, (type, fields') :: sections)) := by
  rw [map_bind, map_bind, hjoins]
  refine congrArg _ (funext fun r => ?_)
  have hmore := congrArg (fun x : Reported (Routing × List (AssetType × Option Value)) =>
    (fun made => (made.1, entryPointsOf (type, fields) :: made.2)) <$> x) (hrest r)
  simp only [Functor.map_map] at hmore
  simp only [bind_pure_comp, Functor.map_map, remaining, List.map_cons, ← hentries]
  exact hmore

/-- The joined outputs of sections that declare alike, with what is left of the sections. -/
theorem addAllJoins_congr (h : AllAlike files files') (r : Routing) :
    remaining <$> r.addAllJoins files = remaining <$> r.addAllJoins files' := by
  induction h generalizing r with
  | nil => rfl
  | @cons name v v' rest rest' halike _ ih =>
    simp only [addAllJoins]
    cases AssetType.ofName? name with
    | none =>
      dsimp only
      rw [map_bind, map_bind]
      exact congrArg _ (funext fun _ => ih r)
    | some type =>
      cases halike with
      | refl v =>
        cases v with
        | mapping fields => exact remaining_congr ih rfl rfl
        | _ => rfl
      | fields hset => exact remaining_congr ih (addJoins_congr hset) (congrArg (type, ·) (hset "entryPoints" (by decide)))

/-- Sections that declare alike give the same routing. -/
theorem ofFiles_congr (h : AllAlike files files') (watched : List String) :
    ofFiles files watched = ofFiles files' watched := by
  have hread : ∀ files, ofFiles files watched = (remaining <$> empty.addAllJoins files) >>= fun made =>
      made.2.foldlM (addDeclared watched) made.1 := by
    intro files
    rw [map_eq_pure_bind, bind_assoc]
    refine congrArg _ (funext fun made => ?_)
    rw [pure_bind]
    unfold remaining
    rw [List.foldlM_map]
    rfl
  rw [hread, hread, addAllJoins_congr h]

end AssetPlan.Routing
