import AssetPlan.Proofs.Configuration
import AssetPlan.Proofs.Defaults.Unset

/-! # Configurations of trees in which the same is set

The readers of sections take a null setting for one that is missing, or reject both, so sections in which the same is
set are read alike. Only the order of conventions and the settings of single plugins may differ. -/

namespace AssetPlan
open Mapping
variable {f f' : Mapping} {key : String}

namespace Mapping.SameSet
variable (h : SameSet f f')
include h

theorem set?_eq (key : String) : f.set? key = f'.set? key := sameSet_iff.mp h key

theorem getD_eq (key : String) : (Entries.get? f key).getD .null = (Entries.get? f' key).getD .null := by
  have hset := h.set?_eq key
  unfold set? at hset
  rw [← Value.getD_filter_set, hset, Value.getD_filter_set]

theorem bind_eq {α : Type} {g : Value → Option α} (hg : g .null = none) (key : String) :
    (Entries.get? f key).bind g = (Entries.get? f' key).bind g := by
  have hset := h.set?_eq key
  unfold set? at hset
  rw [← Value.bind_filter_set hg, hset, Value.bind_filter_set hg]

end Mapping.SameSet

namespace Paths

theorem ofFields_alike (h : SameSet f f') : SameSuccess Eq (ofFields f) (ofFields f') := by
  -- The watched directories, read in one step.
  have hread : ∀ f : Mapping, ofFields f = (do
      let root ← f.text? ["paths"] "root"
      let publicPath ← f.text? ["paths"] "public"
      let watched ← (Entries.get? f "watched").elim (.error (.structural Value.watchedKey .missing)) Value.watched
      let config ← f.text? ["paths"] "config"
      let packageConfig ← f.text? ["paths"] "packageConfig"
      let bowerConfig ← f.text? ["paths"] "bowerConfig"
      .ok ⟨root, publicPath, watched, config, packageConfig, bowerConfig⟩) := by
    intro f
    unfold ofFields
    cases Entries.get? f "watched" <;> rfl
  have hwatched : ∀ {o : Option Value} {e : ConfigError},
      (o.elim (.error e) Value.watched).toOption = o.bind fun v => v.watched.toOption := by
    intro o e
    cases o <;> rfl
  rw [hread, hread]
  refine (h.text? _ "root").bind_eq fun root => (h.text? _ "public").bind_eq fun publicPath => ?_
  refine (SameSuccess.of_toOption ?_).bind_eq fun watched => (h.text? _ "config").bind_eq fun config => ?_
  · rw [hwatched, hwatched, h.bind_eq rfl]
  · refine (h.text? _ "packageConfig").bind_eq fun packageConfig => ?_
    exact (h.text? _ "bowerConfig").bind_eq fun bowerConfig => .ok rfl

end Paths

namespace Server

theorem ofFields_alike (h : SameSet f f') : SameSuccess Eq (ofFields f) (ofFields f') := by
  have htext : ∀ key, SameSuccess Eq (text f key) (text f' key) := by
    intro key
    have hread : ∀ f : Mapping, (text f key).toOption = (Entries.get? f key).bind Value.string? := by
      intro f
      unfold text
      cases Entries.get? f key with
      | none => rfl
      | some v => cases v <;> rfl
    refine .of_toOption ?_
    rw [hread, hread, h.bind_eq rfl]
  have hport : portOf f = portOf f' := by
    unfold portOf
    rw [h.bind_eq rfl]
  unfold ofFields
  rw [hport, flag?_congr (h.set?_eq "run")]
  refine (SameSuccess.of_refl (fun _ => rfl) _).bind_eq fun port => (htext "publicPath").bind_eq fun publicPath => ?_
  refine (htext "base").bind_eq fun base => (htext "hostname").bind_eq fun hostname => ?_
  exact .of_refl (fun _ => rfl) _

end Server

namespace Npm

theorem ofFields_alike (h : SameSet f f') : ofFields f = ofFields f' := by
  unfold ofFields
  rw [h.getD_eq, flag?_congr (h.set?_eq "enabled")]

end Npm

namespace Modules

theorem ofFields_alike (h : SameSet f f') : SameSuccess Eq (ofFields f) (ofFields f') := by
  have hformat : ∀ key, SameSuccess Eq (format f key) (format f' key) := by
    intro key
    have hread : ∀ f : Mapping, (format f key).toOption =
        (Entries.get? f key).bind fun v => (ModuleFormat.ofValue ["modules", key] v).toOption := by
      intro f
      unfold format
      cases Entries.get? f key <;> rfl
    refine .of_toOption ?_
    rw [hread, hread, h.bind_eq rfl]
  unfold ofFields
  rw [h.getD_eq "nameCleaner", h.getD_eq "autoRequire"]
  refine (hformat "wrapper").bind_eq fun wrapper => (hformat "definition").bind_eq fun definition => ?_
  exact .of_refl (fun _ => rfl) _

end Modules

namespace Conventions
variable {fields : Mapping} {c : Conventions} {name : String}

theorem get?_of_mapM {matchers : Entries String Matcher} (h : fields.mapM ofEntry = .ok matchers) (name : String) :
    Entries.get? matchers name = (Entries.get? fields name).bind fun v => (ofEntry (name, v)).toOption.map Prod.snd := by
  induction fields generalizing matchers with
  | nil =>
    cases h
    rfl
  | cons entry rest ih =>
    obtain ⟨k, v⟩ := entry
    rw [List.mapM_cons] at h
    obtain ⟨⟨k', matcher⟩, hentry, h⟩ := bind_eq_ok.mp h
    obtain ⟨matchers', hrest, h⟩ := bind_eq_ok.mp h
    cases h
    have hkey : k' = k := by
      obtain ⟨p, -, hp⟩ := bind_eq_ok.mp hentry
      cases hp
      rfl
    subst hkey
    rw [Entries.get?_cons, Entries.get?_cons]
    split
    · rename_i hname
      subst hname
      show some matcher = (ofEntry (k', v)).toOption.map Prod.snd
      rw [hentry]
      rfl
    · exact ih hrest

/-- The matcher of a convention comes from what is set under its name. -/
theorem get?_ofFields (hw : Entries.WellKeyed fields) (h : ofFields fields = .ok c) (name : String) :
    Entries.get? c.matchers name = (fields.set? name).bind fun v => (ofEntry (name, v)).toOption.map Prod.snd := by
  obtain ⟨matchers, hmatchers, h⟩ := bind_eq_ok.mp h
  cases h
  rw [get?_of_mapM hmatchers, Entries.get?_filter hw]
  rfl

/-- Conventions can be read if each one that is set can. -/
theorem exists_ofFields_iff (hw : Entries.WellKeyed fields) : (∃ c, ofFields fields = .ok c) ↔
    ∀ name v, fields.set? name = some v → ∃ entry, ofEntry (name, v) = .ok entry := by
  have hmem : ∀ name v, (name, v) ∈ fields.filter (fun e => ! e.2.isNull) ↔ fields.set? name = some v := by
    intro name v
    rw [set?_eq_some, List.mem_filter, Bool.not_eq_true']
    exact and_congr_left' ⟨Entries.get?_of_mem hw, Entries.mem_of_get?_eq_some⟩
  have hread : (∃ c, ofFields fields = .ok c) ↔
      ∃ matchers, (fields.filter fun e => ! e.2.isNull).mapM ofEntry = .ok matchers := by
    constructor
    · rintro ⟨c, h⟩
      obtain ⟨matchers, hmatchers, -⟩ := bind_eq_ok.mp h
      exact ⟨matchers, hmatchers⟩
    · rintro ⟨matchers, h⟩
      exact ⟨⟨matchers⟩, bind_eq_ok.mpr ⟨matchers, h, rfl⟩⟩
  rw [hread, exists_mapM_iff]
  constructor
  · exact fun h name v hset => h (name, v) ((hmem name v).mpr hset)
  · exact fun h ⟨name, v⟩ he => h name v ((hmem name v).mp he)

/-- Conventions with the same matchers. -/
def SameMatchers (c c' : Conventions) : Prop := ∀ name, Entries.get? c'.matchers name = Entries.get? c.matchers name

theorem ofFields_alike (hw : Entries.WellKeyed f) (hw' : Entries.WellKeyed f') (h : SameSet f f') :
    SameSuccess SameMatchers (ofFields f) (ofFields f') := by
  refine .of_iff ?_ fun c c' hc hc' name => ?_
  · rw [exists_ofFields_iff hw, exists_ofFields_iff hw']
    simp only [h.set?_eq]
  · rw [get?_ofFields hw hc, get?_ofFields hw' hc', h.set?_eq]

end Conventions

namespace Plugins

/-- The names under a key, or other ones if there is none. -/
def namesAt (fields : Mapping) (key : String) (others : List String) : Except ConfigError (List String) :=
  (Entries.get? fields key).elim (.ok others) (namesOf key)

/-- The plugins that are turned on and off and those that only run. -/
def lists (p : Plugins) : List String × List String × List String := (p.on, p.off, p.only)

/-- The lists of a section; those of other settings where it has none. -/
def readLists (p : Plugins) (fields : Mapping) : Except ConfigError (List String × List String × List String) := do
  let on ← namesAt fields "on" p.on
  let off ← namesAt fields "off" p.off
  let only ← namesAt fields "only" p.only
  .ok (on, off, only)

theorem namesAt_cons_self (v : Value) (rest : Mapping) (others : List String) :
    namesAt ((key, v) :: rest) key others = namesOf key v := by
  unfold namesAt
  rw [Entries.get?_cons, if_pos rfl]
  rfl

theorem namesAt_cons_of_ne {key' : String} (hne : key' ≠ key) (v : Value) (rest : Mapping) (others : List String) :
    namesAt ((key', v) :: rest) key others = namesAt rest key others := by
  unfold namesAt
  rw [Entries.get?_cons, if_neg hne]

theorem namesAt_of_none {fields : Mapping} (h : Entries.get? fields key = none) (others : List String) :
    namesAt fields key others = .ok others := by
  unfold namesAt
  rw [h]
  rfl

theorem add_of_ne {p : Plugins} (hon : key ≠ "on") (hoff : key ≠ "off") (honly : key ≠ "only") (v : Value) :
    add p (key, v) = .ok { p with settings := p.settings ++ [(key, v)] } := by
  unfold add
  split
  · rename_i h
    exact absurd (congrArg Prod.fst h) hon
  · rename_i h
    exact absurd (congrArg Prod.fst h) hoff
  · rename_i h
    exact absurd (congrArg Prod.fst h) honly
  · rename_i h
    cases h
    rfl

/-- The fold over a section reads each list once, so in any order. -/
theorem lists_foldlM {fields : Mapping} (hw : Entries.WellKeyed fields) (p : Plugins) :
    (fields.foldlM add p).toOption.map lists = (readLists p fields).toOption := by
  induction fields generalizing p with
  | nil => rfl
  | cons entry rest ih =>
    obtain ⟨key, v⟩ := entry
    obtain ⟨hkey, hrest⟩ := Entries.wellKeyed_cons.mp hw
    rw [List.foldlM_cons]
    by_cases hon : key = "on"
    · subst hon
      unfold readLists
      rw [namesAt_cons_self, namesAt_cons_of_ne (by decide), namesAt_cons_of_ne (by decide)]
      show ((namesOf "on" v).map _ >>= _).toOption.map lists = _
      cases namesOf "on" v with
      | error e => rfl
      | ok names =>
        -- The key does not come again, so the list is what the rest starts with.
        refine (ih hrest { p with on := names }).trans ?_
        unfold readLists
        rw [namesAt_of_none hkey]
    by_cases hoff : key = "off"
    · subst hoff
      unfold readLists
      rw [namesAt_cons_self, namesAt_cons_of_ne (by decide), namesAt_cons_of_ne (by decide)]
      show ((namesOf "off" v).map _ >>= _).toOption.map lists = _
      cases namesOf "off" v with
      -- The lists are read in another order than they are written, so either may be the one that fails.
      | error e => cases namesAt rest "on" p.on <;> rfl
      | ok names =>
        refine (ih hrest { p with off := names }).trans ?_
        unfold readLists
        rw [namesAt_of_none hkey]
    by_cases honly : key = "only"
    · subst honly
      unfold readLists
      rw [namesAt_cons_self, namesAt_cons_of_ne (by decide), namesAt_cons_of_ne (by decide)]
      show ((namesOf "only" v).map _ >>= _).toOption.map lists = _
      cases namesOf "only" v with
      | error e => cases namesAt rest "on" p.on <;> cases namesAt rest "off" p.off <;> rfl
      | ok names =>
        refine (ih hrest { p with only := names }).trans ?_
        unfold readLists
        rw [namesAt_of_none hkey]
    · rw [add_of_ne hon hoff honly]
      refine (ih hrest _).trans ?_
      unfold readLists
      rw [namesAt_cons_of_ne hon, namesAt_cons_of_ne hoff, namesAt_cons_of_ne honly]

theorem ofFields_alike (hw : Entries.WellKeyed f) (hw' : Entries.WellKeyed f') (h : SameSet f f') :
    SameSuccess (fun p p' => p.lists = p'.lists) (ofFields f) (ofFields f') := by
  have hnames : ∀ key, namesAt f key [] = namesAt f' key [] := by
    have hread : ∀ key (f : Mapping), namesAt f key [] = namesOf key ((Entries.get? f key).getD .null) := by
      intro key f
      unfold namesAt
      cases Entries.get? f key <;> rfl
    intro key
    rw [hread, hread, h.getD_eq]
  refine .of_toOption_map ?_
  unfold ofFields
  rw [lists_foldlM hw, lists_foldlM hw']
  unfold readLists empty
  dsimp only
  rw [hnames, hnames, hnames]

end Plugins

namespace Configuration
variable {t t' : Mapping}

/-- Two configurations that differ at most in the order of their conventions, in the settings of single plugins and
    in the tree that they keep. -/
structure SameSettings (c c' : Configuration) : Prop where
  others : { c' with conventions := c.conventions, plugins := c.plugins, tree := c.tree } = c
  conventions : c.conventions.SameMatchers c'.conventions
  plugins : c.plugins.lists = c'.plugins.lists

/-- Two trees that are taken for the same, without a key twice. A null interval would not be read as a missing one, so
    it is set. -/
structure Interchangeable (t t' : Mapping) : Prop where
  alike : TreeAlike t t'
  wellKeyed : (Value.mapping t).WellKeyed
  wellKeyed' : (Value.mapping t').WellKeyed
  interval : t.hasValue "fileListInterval" = true

namespace Interchangeable
variable (h : Interchangeable t t')
include h

/-- A section that is required is there in both trees, and the same is set in it. -/
theorem required (hkey : key ≠ "files") : SameSuccess
    (fun f f' => Entries.WellKeyed f ∧ Entries.WellKeyed f' ∧ SameSet f f') (t.required key) (t'.required key) := by
  refine (SetAlike.required h.alike key).imp fun f f' hf hf' hrel => ?_
  refine ⟨(h.wellKeyed.get? (required_eq_ok hf)).1, (h.wellKeyed'.get? (required_eq_ok hf')).1, ?_⟩
  rcases hrel with rfl | hrel
  · exact sameSet_iff.mpr fun _ => rfl
  · cases hrel with
    | set _ hset => exact hset
    | files => exact absurd rfl hkey

/-- A section in which a null setting is one is the same in both trees. -/
theorem required_eq (hkey : key ∉ lenientSections) (hfiles : key ≠ "files") :
    SameSuccess Eq (t.required key) (t'.required key) := by
  refine .of_toOption ?_
  rw [toOption_required, toOption_required, h.alike.set?_eq hkey hfiles]

theorem flag?_eq (hkey : key ∉ lenientSections) (hfiles : key ≠ "files") (standard : Bool) :
    t.flag? [] key standard = t'.flag? [] key standard := flag?_congr (h.alike.set?_eq hkey hfiles)

/-- The files of both trees are routed alike. -/
theorem routing (watched : List String) : SameSuccess
    (fun f f' => Routing.ofFiles f watched = Routing.ofFiles f' watched) (t.required "files") (t'.required "files") := by
  refine (SetAlike.required h.alike "files").imp fun f f' _ _ hrel => ?_
  rcases hrel with rfl | hrel
  · rfl
  · cases hrel with
    | set hkey => exact absurd hkey (by decide)
    | files halike => exact Routing.ofFiles_congr halike watched

theorem intervalOf_eq : intervalOf t = intervalOf t' := by
  obtain ⟨v, hv, hnull⟩ := hasValue_iff.mp h.interval
  have hset : t'.set? "fileListInterval" = some v := by
    rw [← h.alike.set?_eq (by decide) (by decide)]
    exact set?_eq_some.mpr ⟨hv, hnull⟩
  unfold intervalOf
  rw [hv, (set?_eq_some.mp hset).1]

/-- Such trees are read alike, with the same diagnostics. -/
theorem ofTree_alike (environments : List String) (isProduction : Bool) :
    Reported.SameReport SameSettings (ofTree environments isProduction t) (ofTree environments isProduction t') := by
  have hsection : ∀ {key : String}, key ≠ "files" → Reported.SameReport
      (fun f f' => Entries.WellKeyed f ∧ Entries.WellKeyed f' ∧ SameSet f f')
      (.ofExcept (t.required key)) (.ofExcept (t'.required key)) := fun hkey => .of_success (h.required hkey)
  -- Hooks and environments are kept as they are, so they must not differ even by a null.
  have hequal : ∀ {key : String}, key ∉ lenientSections → key ≠ "files" → Reported.SameReport Eq
      (.ofExcept (t.required key)) (.ofExcept (t'.required key)) := fun hkey hfiles =>
    .of_success (h.required_eq hkey hfiles)
  have hsame : ∀ {α : Type} (x : Reported α), Reported.SameReport Eq x x := fun x => ⟨rfl, .of_refl (fun _ => rfl) _⟩
  unfold ofTree
  rw [h.intervalOf_eq]
  refine (hsection (by decide)).bind fun f f' hf => ?_
  refine Reported.SameReport.bind_eq (.of_success (Paths.ofFields_alike hf.2.2)) fun paths => ?_
  refine Reported.SameReport.bind (.of_success (h.routing paths.watched)) fun files files' hrouting => ?_
  rw [hrouting]
  refine (hsame _).bind_eq fun routing => ?_
  refine (hsection (by decide)).bind fun f f' hf => ?_
  have hmatchers := Conventions.ofFields_alike hf.1 hf.2.1 hf.2.2
  refine Reported.SameReport.bind (.of_success hmatchers) fun _ _ hconventions => ?_
  refine (hsection (by decide)).bind fun f f' hf => ?_
  refine Reported.SameReport.bind_eq (.of_success (Modules.ofFields_alike hf.2.2)) fun modules => ?_
  refine (hsection (by decide)).bind fun f f' hf => ?_
  have hlists := Plugins.ofFields_alike hf.1 hf.2.1 hf.2.2
  refine Reported.SameReport.bind (.of_success hlists) fun _ _ hplugins => ?_
  refine (hsection (by decide)).bind fun f f' hf => ?_
  refine Reported.SameReport.bind_eq (.of_success (Server.ofFields_alike hf.2.2)) fun server => ?_
  refine (hsection (by decide)).bind fun f f' hf => ?_
  rw [Npm.ofFields_alike hf.2.2]
  refine (hsame _).bind_eq fun npm => ?_
  refine (hequal (by decide) (by decide)).bind_eq fun hooks => ?_
  refine (hequal (by decide) (by decide)).bind_eq fun overrides => ?_
  refine (hsame _).bind_eq fun fileListInterval => ?_
  refine (hsection (by decide)).bind fun f f' hf => ?_
  rw [flag?_congr (hf.2.2.set?_eq "usePolling")]
  refine (hsame _).bind_eq fun usePolling => ?_
  rw [h.flag?_eq (by decide) (by decide), h.flag?_eq (by decide) (by decide), h.flag?_eq (by decide) (by decide),
    h.flag?_eq (by decide) (by decide)]
  refine (hsame _).bind_eq fun persistent => (hsame _).bind_eq fun optimize => (hsame _).bind_eq fun sourceMaps => ?_
  exact (hsame _).bind_eq fun notifications => ⟨rfl, .ok ⟨rfl, hconventions, hplugins⟩⟩

end Interchangeable
end Configuration
end AssetPlan
