import Mathlib
import Retint.CommandLine.Config
import Retint.Proofs.Theme.Options

/-!
Flags and a configuration, merged. Each flag is bound to the plain name of its setting before the members make options,
so it goes before what the configuration says under this name and in front of it, and another spelling behind it goes
before the flag (`lastGiven_settings`). What the variables of the theme are does not matter for other settings
(`OnlyThemes`). Main statement: `options_merge`, when there are options, and the value of each setting then.
-/

namespace Retint.CommandLine

open Text Json Theme

/-! ## Flags -/

/-- Accepted seeds are whole numbers. -/
theorem isSome_readInt?_of_accept {found : List (Flag × Text)} (accepted : accept found = .ok ()) :
    ∀ e ∈ found, e.1 = .seed → (readInt? e.2).isSome := by
  induction found with
  | nil => nofun
  | cons e found ih =>
    obtain ⟨f, v⟩ := e
    rw [accept] at accepted
    split at accepted
    · cases accepted
    · split at accepted
      · cases accepted
      · next fine =>
        rintro e member seed
        rcases List.mem_cons.mp member with rfl | inside
        · rw [Option.isSome_iff_ne_none]
          simpa [show f = .seed from seed] using fine
        · exact ih accepted e inside seed

theorem isSome_readInt?_of_readFrom {n : Nat} {kinds : List (Text × Kind)} {given : List (Flag × Text)} {left : List Text}
    (ran : readFrom n kinds = .ok (given, left)) : ∀ e ∈ given, e.1 = .seed → (readInt? e.2).isSome := by
  induction n generalizing kinds given left with
  | zero => cases kinds <;> cases ran <;> nofun
  | succ n ih =>
    cases kinds with
    | nil => cases ran; nofun
    | cons argument kinds =>
      obtain ⟨text, kind⟩ := argument
      -- the flags that are found at the front have been accepted, whether a value was joined to the flag or not
      have step : ∀ (found : List (Flag × Text)) (behind : List (Text × Kind)),
          (accept found >>= fun _ => readFrom n behind >>= fun r => pure (found ++ r.1, r.2)) = .ok (given, left) →
            ∀ e ∈ given, e.1 = .seed → (readInt? e.2).isSome := by
        intro found behind ran e member
        obtain ⟨_, accepted, ran⟩ := ok_of_bind ran
        obtain ⟨⟨more, others⟩, rest, ran⟩ := ok_of_bind ran
        cases ran
        rcases List.mem_append.mp member with here | later
        · exact isSome_readInt?_of_accept accepted e here
        · exact ih rest e later
      cases kind with
      | flag f isLong joined =>
        cases joined with
        | none =>
          obtain ⟨⟨found, behind⟩, -, ran⟩ := ok_of_bind (x := takeValue f kinds) ran
          exact step found behind ran
        | some value =>
          obtain ⟨c, -, ran⟩ := ok_of_bind (x := (cluster f isLong value).mapError Stop.error) ran
          cases last : c.last with
          | none => rw [last] at ran; exact step c.flags kinds ran
          | some g =>
            rw [last] at ran
            obtain ⟨⟨found, behind⟩, -, ran⟩ := ok_of_bind (x := takeValue g kinds) ran
            exact step (c.flags ++ found) behind ran
      | plain | unknown =>
        obtain ⟨⟨more, others⟩, rest, ran⟩ := ok_of_bind ran
        cases ran
        exact ih rest

theorem isSome_readInt?_of_read {arguments : List Text} {a : Arguments} (read : Arguments.read arguments = .ok a) :
    ∀ v ∈ a.values .seed, (readInt? v).isSome := by
  obtain ⟨kinds, -, read⟩ := ok_of_bind read
  obtain ⟨⟨given, left⟩, ran, read⟩ := ok_of_bind read
  intro v member
  dsimp only at read
  split at read
  · cases read
    obtain ⟨e, inside, rfl⟩ := List.mem_map.mp member
    obtain ⟨inside, seed⟩ := List.mem_filter.mp inside
    exact isSome_readInt?_of_readFrom ran e inside (by simpa using seed)
  · cases read

theorem value?_eq_none_iff {a : Arguments} {f : Flag} : a.value? f = none ↔ a.values f = [] := List.getLast?_eq_none_iff

/-- A flag with a setting has a value exactly if it is given. -/
theorem setting_eq_none_iff {arguments : List Text} {a : Arguments} (read : Arguments.read arguments = .ok a) {f : Flag}
    {s : Setting} (sets : f.setting? = some s) : a.setting f = none ↔ a.values f = [] := by
  have listed : Arguments.setting.listed a f = none ↔ a.values f = [] := by
    unfold Arguments.setting.listed
    cases a.values f <;> simp
  have text : (a.value? f).map Value.text = none ↔ a.values f = [] := by rw [Option.map_eq_none_iff, value?_eq_none_iff]
  have number : f = .seed → (((a.value? f).bind fun v => (readInt? v).map Value.number) = none ↔ a.values f = []) := by
    rintro rfl
    cases last : a.value? .seed with
    | none => simp [← value?_eq_none_iff, last]
    | some v =>
      have whole := isSome_readInt?_of_read read v (List.mem_of_getLast? last)
      simp [← value?_eq_none_iff, last, Option.ne_none_iff_isSome, whole]
  cases f with
  | styles | pattern => exact listed
  | seed => exact number rfl
  | library | variablesFile | output | entryName | classPrefix | debugDirectory => exact text
  | _ => cases sets

theorem setting_ne_null {a : Arguments} {f : Flag} : a.setting f ≠ some .null := by
  have listed : Arguments.setting.listed a f ≠ some .null := by
    unfold Arguments.setting.listed
    split <;> nofun
  have text : (a.value? f).map Value.text ≠ some .null := by
    cases a.value? f <;> nofun
  have number : ((a.value? f).bind fun v => (readInt? v).map Value.number) ≠ some .null := by
    cases a.value? f with
    | none => nofun
    | some v => rw [Option.bind_some]; cases readInt? v <;> nofun
  cases f with
  | styles | pattern => exact listed
  | seed => exact number
  | _ => exact text

/-! ## What the flags set -/

theorem eq_of_name_eq {s r : Setting} (same : s.name = r.name) : s = r := by
  have found := ofName?_name s
  rw [same, ofName?_name] at found
  exact (Option.some.inj found).symm

theorem eq_of_setting?_eq {f g : Flag} {s : Setting} (left : f.setting? = some s) (right : g.setting? = some s) :
    f = g := by
  cases s <;> cases f <;> cases left <;> cases g <;> cases right <;> rfl

theorem exists_flag {s : Setting} (other : s ≠ .themed) : ∃ f, Flag.setting? f = some s := by
  cases s with
  | themed => exact absurd rfl other
  | library => exact ⟨.library, rfl⟩
  | styles => exact ⟨.styles, rfl⟩
  | variablesFile => exact ⟨.variablesFile, rfl⟩
  | output => exact ⟨.output, rfl⟩
  | patterns => exact ⟨.pattern, rfl⟩
  | entryName => exact ⟨.entryName, rfl⟩
  | classPrefix => exact ⟨.classPrefix, rfl⟩
  | debugDirectory => exact ⟨.debugDirectory, rfl⟩
  | seed => exact ⟨.seed, rfl⟩

/-- The member that a flag gives. -/
def memberOfFlag (a : Arguments) (f : Flag) : Option (Text × Value) :=
  f.setting?.bind fun s => (a.setting f).map fun v => (s.name, v)

theorem memberOfFlag_eq_some {a : Arguments} {f : Flag} {e : Text × Value} (gives : memberOfFlag a f = some e) :
    ∃ s, f.setting? = some s ∧ a.setting f = some e.2 ∧ e.1 = s.name := by
  obtain ⟨s, sets, gives⟩ := Option.bind_eq_some_iff.mp gives
  obtain ⟨v, given, rfl⟩ := Option.map_eq_some_iff.mp gives
  exact ⟨s, sets, given, rfl⟩

theorem nodup_settings (a : Arguments) : (a.settings.map Prod.fst).Nodup := by
  have all : Flag.all.Nodup := by decide
  show ((Flag.all.filterMap (memberOfFlag a)).map Prod.fst).Nodup
  rw [List.map_filterMap]
  refine all.filterMap fun f g name left right => ?_
  obtain ⟨e, leftGives, rfl⟩ := Option.map_eq_some_iff.mp left
  obtain ⟨d, rightGives, same⟩ := Option.map_eq_some_iff.mp right
  obtain ⟨s, leftSets, -, named⟩ := memberOfFlag_eq_some leftGives
  obtain ⟨r, rightSets, -, named'⟩ := memberOfFlag_eq_some rightGives
  have equal : s = r := eq_of_name_eq (by rw [← named, ← named', same])
  exact eq_of_setting?_eq leftSets (equal ▸ rightSets)

theorem plain_of_mem_settings {a : Arguments} {e : Text × Value} (member : e ∈ a.settings) :
    (∃ s : Setting, e.1 = s.name) ∧ e.2 ≠ .null := by
  obtain ⟨f, -, gives⟩ := List.mem_filterMap.mp member
  obtain ⟨s, -, given, named⟩ := memberOfFlag_eq_some gives
  exact ⟨⟨s, named⟩, fun null => setting_ne_null (null ▸ given)⟩

theorem mem_settings_iff {a : Arguments} {f : Flag} {s : Setting} (sets : f.setting? = some s) {v : Value} :
    (s.name, v) ∈ a.settings ↔ a.setting f = some v := by
  constructor
  · intro member
    obtain ⟨g, -, gives⟩ := List.mem_filterMap.mp member
    obtain ⟨r, setsOther, given, named⟩ := memberOfFlag_eq_some gives
    have equal : s = r := eq_of_name_eq named
    rwa [eq_of_setting?_eq sets (equal ▸ setsOther)]
  · intro given
    have gives : memberOfFlag a f = some (s.name, v) := by
      simp only [memberOfFlag, sets, given, Option.bind_some, Option.map_some]
    exact List.mem_filterMap.mpr ⟨f, by cases f <;> decide, gives⟩

/-- Under the plain name of a setting the flags give what its flag gives. -/
theorem find?_settings (a : Arguments) {f : Flag} {s : Setting} (sets : f.setting? = some s) :
    (a.settings.find? (·.1 = s.name)).map Prod.snd = a.setting f := by
  have looked : ∀ v, Bindings.get? ⟨a.settings, nodup_settings a⟩ s.name = some v ↔ a.setting f = some v := fun v =>
    Bindings.get?_eq_some_iff.trans (mem_settings_iff sets)
  exact Option.ext looked

/-- Behind the flags a setting has the value of its flag, unless another spelling gives it one behind the plain name. -/
theorem lastGiven_settings (a : Arguments) {f : Flag} {s : Setting} (sets : f.setting? = some s) (m : Bindings Value) :
    lastGiven s (m.insertAll a.settings).entries =
      match a.setting f with
      | none => lastGiven s m.entries
      | some v => some ((lastGiven s (behind s.name m.entries)).getD v) := by
  have spread := lastGiven_insertAll s (nodup_settings a) (fun e member => plain_of_mem_settings member) m
  rw [find?_settings a sets] at spread
  exact spread.trans (by cases a.setting f <;> rfl)

/-! ## Steps of a merge -/

/-- The members of a configuration, with what the arguments give. -/
def merge (t : FileTree) (a : Arguments) (config : List (Text × Value)) : Except ConfigError (Bindings Value) := do
  let (names, m) ← themeVariables (a.values .themed) ((Bindings.ofList config).insertAll a.settings)
  withVariables (names ++ (← declaredIn t (a.values .variablesFrom))) m

theorem members_of_config {t : FileTree} {a : Arguments} {file : Text} (given : a.nonEmpty? .config = some file) :
    members t a = readConfig t (.ofText file) >>= merge t a := by
  unfold members
  rw [given]
  rfl

/-- Two maps differ in members for the variables of the theme alone. -/
structure OnlyThemes (m n : Bindings Value) : Prop where
  values : ∀ s, s ≠ .themed → lastGiven s n.entries = lastGiven s m.entries
  named : ∀ k, Setting.ofName? k ≠ some .themed → n.get? k = m.get? k
  known : (∀ e ∈ m.entries, Setting.ofName? e.1 ≠ none) → ∀ e ∈ n.entries, Setting.ofName? e.1 ≠ none

namespace OnlyThemes

variable {l m n : Bindings Value} {k : Text}

theorem refl (m : Bindings Value) : OnlyThemes m m := ⟨fun _ _ => rfl, fun _ _ => rfl, id⟩

theorem trans (first : OnlyThemes l m) (second : OnlyThemes m n) : OnlyThemes l n where
  values s other := (second.values s other).trans (first.values s other)
  named k other := (second.named k other).trans (first.named k other)
  known := second.known ∘ first.known

theorem erase (m : Bindings Value) (themed : Setting.ofName? k = some .themed) : OnlyThemes m (m.erase k) where
  values s other := by
    have dropped : ∀ e : Text × Value, (if e.1 ≠ k then given? s e else none) = given? s e := by
      intro e
      split
      · rfl
      · next same =>
        have named : Setting.ofName? e.1 ≠ some s := by
          rw [not_not.mp same, themed]
          exact fun equal => other (Option.some.inj equal).symm
        rw [given?_of_ne named]
    rw [lastGiven, lastGiven, Bindings.erase, List.filterMap_filter]
    simp only [decide_eq_true_eq, dropped]
  named j other := by
    rw [Bindings.get?_erase, if_neg]
    rintro rfl
    exact other themed
  known known e member := known e (List.mem_filter.mp member).1

theorem insert (m : Bindings Value) (themed : Setting.ofName? k = some .themed) (v : Value) :
    OnlyThemes m (m.insert k v) where
  values s other := lastGiven_bindEntry_of_ne (by rw [themed]; exact fun equal => other (Option.some.inj equal).symm) _
  named j other := by
    rw [Bindings.get?_insert, if_neg]
    rintro rfl
    exact other themed
  known known e member := by
    rcases mem_bindEntry member with rfl | before
    · rw [themed]; nofun
    · exact known e before

end OnlyThemes

/-- The variables of the theme that a configuration gives, under one name or the other. -/
def configured? (m : Bindings Value) : Option Value :=
  ((m.get? "theme_variables".toList).filter Value.isGiven).or ((m.get? "themeVariables".toList).filter Value.isGiven)

/-- The variables of the theme: those of the arguments, or those of the configuration. -/
def themeNames (given : List Text) (m : Bindings Value) : Except ConfigError (List Value) :=
  if given ≠ [] then .ok (given.map .text)
  else match configured? m with
    | some v => itemsOf v
    | none => .ok []

theorem themeVariables_eq (given : List Text) (m : Bindings Value) :
    ∃ n, OnlyThemes m n ∧ themeVariables given m = (themeNames given m).map (·, n) := by
  have plain : Setting.ofName? "theme_variables".toList = some .themed := by decide
  have second : Setting.ofName? "themeVariables".toList = some .themed := by decide
  by_cases absent : given = []
  · subst absent
    have apart : ("theme_variables".toList : Text) ≠ "themeVariables".toList := by decide
    have first := OnlyThemes.erase m plain
    have both := first.trans (.erase _ second)
    simp only [themeVariables, themeNames, configured?, takeGiven, List.isEmpty_nil, Bindings.get?_erase, if_neg apart]
    cases (m.get? "theme_variables".toList).filter Value.isGiven with
    | some v => exact ⟨_, first, rfl⟩
    | none =>
      cases (m.get? "themeVariables".toList).filter Value.isGiven with
      | some v => exact ⟨_, both, rfl⟩
      | none => exact ⟨_, both, rfl⟩
  · refine ⟨m, .refl m, ?_⟩
    rw [themeVariables, themeNames, if_pos (by simpa using absent), if_pos absent]
    rfl

theorem forM_checkHashable_iff {names : List Value} :
    names.forM checkHashable = .ok () ↔ ∀ v ∈ names, checkHashable v = .ok () := by
  induction names with
  | nil => exact ⟨fun _ => nofun, fun _ => rfl⟩
  | cons v names ih =>
    rw [List.forall_mem_cons, ← ih]
    show (checkHashable v >>= fun _ => names.forM checkHashable) = .ok () ↔ _
    cases checkHashable v with
    | ok _ => simp [bind, Except.bind]
    | error e => simp [bind, Except.bind]

/-- The variables are bound if all their names can be looked up. -/
theorem withVariables_isOk_iff {names : List Value} {m : Bindings Value} :
    (∃ n, withVariables names m = .ok n) ↔ ∀ v ∈ names, checkHashable v = .ok () := by
  rw [← forM_checkHashable_iff]
  unfold withVariables
  cases names with
  | nil => exact ⟨fun _ => rfl, fun _ => ⟨m, rfl⟩⟩
  | cons v names =>
    constructor
    · rintro ⟨n, bound⟩
      obtain ⟨_, hashable, -⟩ := ok_of_bind bound
      exact hashable
    · intro hashable
      simp only [List.isEmpty_cons, Bool.false_eq_true, if_false, hashable]
      exact ⟨_, rfl⟩

theorem onlyThemes_withVariables {names : List Value} {m n : Bindings Value} (bound : withVariables names m = .ok n) :
    OnlyThemes m n := by
  unfold withVariables at bound
  split at bound
  · cases bound
    exact .refl m
  · obtain ⟨_, -, bound⟩ := ok_of_bind bound
    cases bound
    exact .insert m (by decide) _

/-- The names that some files declare are texts. -/
theorem checkHashable_of_declaredIn {t : FileTree} {files : List Text} {names : List Value}
    (read : declaredIn t files = .ok names) : ∀ v ∈ names, checkHashable v = .ok () := by
  induction files generalizing names with
  | nil => cases read; nofun
  | cons file files ih =>
    obtain ⟨text, -, read⟩ := ok_of_bind read
    obtain ⟨others, rest, read⟩ := ok_of_bind read
    cases read
    intro v member
    rcases List.mem_append.mp member with here | later
    · obtain ⟨name, -, rfl⟩ := List.mem_map.mp here
      rfl
    · exact ih rest v later

theorem declaredIn_isOk_iff {t : FileTree} {files : List Text} :
    (∃ names, declaredIn t files = .ok names) ↔ ∀ file ∈ files, ∃ text, t.readText (.ofText file) = .ok text := by
  induction files with
  | nil => exact ⟨fun _ => nofun, fun _ => ⟨[], rfl⟩⟩
  | cons file files ih =>
    rw [List.forall_mem_cons, ← ih]
    constructor
    · rintro ⟨names, read⟩
      obtain ⟨text, first, read⟩ := ok_of_bind read
      obtain ⟨others, rest, -⟩ := ok_of_bind read
      exact ⟨⟨text, ok_of_mapError first⟩, others, rest⟩
    · rintro ⟨⟨text, first⟩, others, rest⟩
      exact ⟨_, by rw [declaredIn, first, rest]; rfl⟩

/-! ## Members that are merged -/

/-- The value can be gone through, and its items can be looked up. -/
def Listable (v : Value) : Prop := ∃ items, itemsOf v = .ok items ∧ ∀ item ∈ items, checkHashable item = .ok ()

/-- The variables of the theme can be collected: those of the configuration, if the arguments give none, and those that
files declare. -/
structure CollectsThemes (t : FileTree) (a : Arguments) (config : Bindings Value) : Prop where
  listable : a.values .themed = [] → ∀ v, configured? config = some v → Listable v
  readable : ∀ file ∈ a.values .variablesFrom, ∃ text, t.readText (.ofText file) = .ok text

theorem themeNames_isOk_iff {given : List Text} {m : Bindings Value} :
    (∃ names, themeNames given m = .ok names ∧ ∀ v ∈ names, checkHashable v = .ok ()) ↔
      (given = [] → ∀ v, configured? m = some v → Listable v) := by
  unfold themeNames
  by_cases absent : given = []
  · cases found : configured? m with
    | none => simp [absent]
    | some v => simp [absent, Listable]
  · have texts : ∀ v ∈ given.map Value.text, checkHashable v = .ok () := by
      intro v member
      obtain ⟨name, -, rfl⟩ := List.mem_map.mp member
      rfl
    simp only [if_pos absent]
    exact ⟨fun _ empty => absurd empty absent, fun _ => ⟨_, rfl, texts⟩⟩

section
variable {t : FileTree} {a : Arguments} {config : List (Text × Value)} {m : Bindings Value}

/-- Names that no flag sets keep their values. -/
theorem get?_settings_of_ne {k : Text} (other : ∀ f s, Flag.setting? f = some s → s.name ≠ k) (m : Bindings Value) :
    (m.insertAll a.settings).get? k = m.get? k := by
  have absent : a.settings.find? (·.1 = k) = none := by
    refine List.find?_eq_none.mpr fun e member named => ?_
    obtain ⟨f, -, gives⟩ := List.mem_filterMap.mp member
    obtain ⟨s, sets, -, same⟩ := memberOfFlag_eq_some gives
    exact other f s sets (by rw [← same]; simpa using named)
  rw [Bindings.get?_insertAll (nodup_settings a), absent]
  rfl

theorem configured?_settings (m : Bindings Value) : configured? (m.insertAll a.settings) = configured? m := by
  have plain : ∀ f s, Flag.setting? f = some s → s.name ≠ "theme_variables".toList := by
    intro f s sets
    cases f <;> cases sets <;> decide
  have other : ∀ f s, Flag.setting? f = some s → s.name ≠ "themeVariables".toList := by
    intro f s sets
    cases f <;> cases sets <;> decide
  rw [configured?, get?_settings_of_ne plain, get?_settings_of_ne other, configured?]

theorem onlyThemes_merge (merged : merge t a config = .ok m) :
    OnlyThemes ((Bindings.ofList config).insertAll a.settings) m := by
  obtain ⟨n, only, same⟩ := themeVariables_eq (a.values .themed) ((Bindings.ofList config).insertAll a.settings)
  rw [merge, same] at merged
  obtain ⟨⟨names, left⟩, found, merged⟩ := ok_of_bind merged
  obtain ⟨declared, -, merged⟩ := ok_of_bind merged
  obtain ⟨_, -, same⟩ := ok_of_map found
  cases same
  exact only.trans (onlyThemes_withVariables merged)

/-- A configuration is merged if the variables of the theme can be collected. -/
theorem merge_isOk_iff : (∃ m, merge t a config = .ok m) ↔ CollectsThemes t a (.ofList config) := by
  obtain ⟨n, -, same⟩ := themeVariables_eq (a.values .themed) ((Bindings.ofList config).insertAll a.settings)
  have collected := @themeNames_isOk_iff (a.values .themed) ((Bindings.ofList config).insertAll a.settings)
  rw [configured?_settings] at collected
  rw [merge, same]
  constructor
  · rintro ⟨m, merged⟩
    obtain ⟨⟨names, left⟩, found, merged⟩ := ok_of_bind merged
    obtain ⟨declared, read, merged⟩ := ok_of_bind merged
    have hashable := withVariables_isOk_iff.mp ⟨m, merged⟩
    obtain ⟨_, listed, equal⟩ := ok_of_map found
    cases equal
    exact ⟨collected.mp ⟨names, listed, fun v member => hashable v (List.mem_append_left _ member)⟩,
      declaredIn_isOk_iff.mp ⟨declared, read⟩⟩
  · rintro ⟨listable, readable⟩
    obtain ⟨names, listed, hashable⟩ := collected.mpr listable
    obtain ⟨declared, read⟩ := declaredIn_isOk_iff.mpr readable
    rw [listed, read]
    refine withVariables_isOk_iff.mpr fun v member => ?_
    rcases List.mem_append.mp member with own | other
    · exact hashable v own
    · exact checkHashable_of_declaredIn read v other

end

/-! ## Options -/

/-- A library is named where it is looked for: by its flag or else under its plain name, or under its first other
name. -/
def NamesLibrary (a : Arguments) (config : Bindings Value) : Prop :=
  ((a.setting .library).or (config.get? "ant_dir".toList)).any Value.isGiven ∨
    (config.get? "antDir".toList).any Value.isGiven

section
variable {t : FileTree} {a : Arguments} {c : List (Text × Value)} {m : Bindings Value}

theorem namesLibrary_iff : namesLibrary m ↔
    (m.get? "ant_dir".toList).any Value.isGiven ∨ (m.get? "antDir".toList).any Value.isGiven := by
  have given : ∀ v : Option Value, (v.getD .null).isGiven = v.any Value.isGiven := fun v => by cases v <;> rfl
  simp only [namesLibrary, List.any_cons, List.any_nil, Bool.or_false, given, Bool.or_eq_true]

theorem namesLibrary_merge (merged : merge t a c = .ok m) : namesLibrary m ↔ NamesLibrary a (.ofList c) := by
  have only := onlyThemes_merge merged
  have other : ∀ f s, Flag.setting? f = some s → s.name ≠ "antDir".toList := by
    intro f s sets
    cases f <;> cases sets <;> decide
  have own : (a.settings.find? (·.1 = "ant_dir".toList)).map Prod.snd = a.setting .library :=
    find?_settings a (s := .library) rfl
  rw [namesLibrary_iff, only.named _ (by decide), only.named _ (by decide), get?_settings_of_ne other,
    Bindings.get?_insertAll (nodup_settings a), own, NamesLibrary]

/-- A member that names a library gives one. -/
theorem lastGiven_library_ne_none (names : namesLibrary m) : lastGiven .library m.entries ≠ none := by
  have given : ∀ k, Setting.ofName? k = some .library → (m.get? k).any Value.isGiven →
      lastGiven .library m.entries ≠ none := by
    intro k named given
    cases found : m.get? k with
    | none => rw [found] at given; cases given
    | some v =>
      rw [found] at given
      have value : v ≠ .null := by rintro rfl; cases given
      have gives := given?_of_ofName? named value
      have among : v ∈ m.entries.filterMap (given? .library) :=
        List.mem_filterMap.mpr ⟨(k, v), Bindings.get?_eq_some_iff.mp found, gives⟩
      rw [lastGiven, Ne, List.getLast?_eq_none_iff]
      exact List.ne_nil_of_mem among
  exact (namesLibrary_iff.mp names).elim (given _ (by decide)) (given _ (by decide))

/-- What is merged into a configuration with known names alone has known names alone. -/
theorem known_merge (known : ∀ e ∈ (Bindings.ofList c).entries, Setting.ofName? e.1 ≠ none) (merged : merge t a c = .ok m) :
    ∀ e ∈ m.entries, Setting.ofName? e.1 ≠ none := by
  refine (onlyThemes_merge merged).known fun e member => ?_
  rcases Bindings.mem_insertAll member with before | given
  · exact known e before
  · obtain ⟨⟨s, named⟩, -⟩ := plain_of_mem_settings given
    rw [named, ofName?_name]
    nofun

/-- Options that are made of a configuration and arguments are those of the merged members. -/
theorem options_eq_ok_iff {file : Text} {o : Options} (given : a.nonEmpty? .config = some file)
    (config : readConfig t (.ofText file) = .ok c) :
    options t a = .ok o ↔ ∃ m, merge t a c = .ok m ∧ namesLibrary m ∧ Options.ofMembers m.entries = .ok o := by
  have same : members t a = merge t a c := by rw [members_of_config given, config]; rfl
  constructor
  · intro made
    obtain ⟨m, merged, made⟩ := ok_of_bind made
    split at made
    · next names => exact ⟨m, same ▸ merged, names, ok_of_mapError made⟩
    · cases made
  · rintro ⟨m, merged, names, made⟩
    simp only [options, same, merged, bind, Except.bind, names, if_true, made]
    rfl

end

/-- For a configuration that makes options by itself: with the arguments it makes options exactly if the library is named
where it is looked for and the variables of the theme can be collected, and then each other setting has the value of its
flag, where this is given and no other spelling stands behind the plain name, and otherwise the value of the
configuration. -/
theorem options_merge {arguments : List Text} {a : Arguments} {t : FileTree} {file : Text} {c : List (Text × Value)}
    {base : Options} (read : Arguments.read arguments = .ok a) (given : a.nonEmpty? .config = some file)
    (config : readConfig t (.ofText file) = .ok c) (accepted : Options.ofMembers (Bindings.ofList c).entries = .ok base) :
    ((∃ o, options t a = .ok o) ↔ NamesLibrary a (.ofList c) ∧ CollectsThemes t a (.ofList c)) ∧
      ∀ o, options t a = .ok o → ∀ s, s ≠ .themed → ∃ f, Flag.setting? f = some s ∧
        (a.setting f = none ↔ a.values f = []) ∧
          o.value s = match a.setting f with
            | none => base.value s
            | some v => (lastGiven s (behind s.name (Bindings.ofList c).entries)).getD v := by
  obtain ⟨known, -, rfl⟩ := Options.ofMembers_eq_ok_iff.mp accepted
  simp only [options_eq_ok_iff given config]
  refine ⟨⟨?_, ?_⟩, ?_⟩
  · rintro ⟨o, m, merged, names, -⟩
    exact ⟨(namesLibrary_merge merged).mp names, merge_isOk_iff.mp ⟨m, merged⟩⟩
  · rintro ⟨names, collects⟩
    obtain ⟨m, merged⟩ := merge_isOk_iff.mpr collects
    have named := (namesLibrary_merge merged).mpr names
    exact ⟨_, m, merged, named,
      Options.ofMembers_eq_ok_iff.mpr ⟨known_merge known merged, lastGiven_library_ne_none named, rfl⟩⟩
  · rintro o ⟨m, merged, -, made⟩ s other
    obtain ⟨-, -, rfl⟩ := Options.ofMembers_eq_ok_iff.mp made
    obtain ⟨f, sets⟩ := exists_flag other
    refine ⟨f, sets, setting_eq_none_iff read sets, ?_⟩
    simp only [(onlyThemes_merge merged).values s other, lastGiven_settings a sets]
    cases a.setting f <;> rfl

/-- A configuration file and nothing else. -/
def configuration (text : String) : FileTree := ⟨[], [(["c.json".toList], .file (Utf8.encode text.toList) false)]⟩

theorem options_merge_prefix :
    ∃ o, options (configuration "\x7b\"antDir\": \"x\", \"prefix\": \"p\", \"seed\": 1\x7d")
        ⟨[(.config, "c.json".toList), (.classPrefix, ['q'])]⟩ = .ok o ∧
      o.value .classPrefix = .text ['q'] ∧ o.value .seed = .number 1 := by
  have read : Arguments.read (["--config", "c.json", "--prefix", "q"].map String.toList) =
      .ok ⟨[(.config, "c.json".toList), (.classPrefix, ['q'])]⟩ := by decide +kernel
  have config : readConfig (configuration "\x7b\"antDir\": \"x\", \"prefix\": \"p\", \"seed\": 1\x7d")
      (.ofText "c.json".toList) =
      .ok [("antDir".toList, .text ['x']), ("prefix".toList, .text ['p']), ("seed".toList, .number 1)] := by cbv
  obtain ⟨made, values⟩ := options_merge read (by decide) config rfl
  have collects : CollectsThemes (configuration "\x7b\"antDir\": \"x\", \"prefix\": \"p\", \"seed\": 1\x7d")
      ⟨[(.config, "c.json".toList), (.classPrefix, ['q'])]⟩
      (.ofList [("antDir".toList, .text ['x']), ("prefix".toList, .text ['p']), ("seed".toList, .number 1)]) :=
    ⟨fun _ v found => (by cases found), fun file member => (List.not_mem_nil (a := file) member).elim⟩
  obtain ⟨o, merged⟩ := made.mpr ⟨.inr rfl, collects⟩
  obtain ⟨f, sets, -, own⟩ := values o merged .classPrefix (by simp)
  obtain ⟨g, setsSeed, -, seed⟩ := values o merged .seed (by simp)
  cases eq_of_setting?_eq sets (g := .classPrefix) rfl
  cases eq_of_setting?_eq setsSeed (g := .seed) rfl
  exact ⟨o, merged, own, seed⟩

/-- The library is named by its last name, which makes options but is not looked for. -/
theorem options_merge_lastName :
    ¬ ∀ (arguments : List Text) (a : Arguments) (t : FileTree) (file : Text) (c : List (Text × Value)) (base : Options),
      Arguments.read arguments = .ok a → a.nonEmpty? .config = some file → readConfig t (.ofText file) = .ok c →
      Options.ofMembers (Bindings.ofList c).entries = .ok base → (base.value .library).isGiven →
      ∃ o, options t a = .ok o := by
  intro succeeds
  have config : readConfig (configuration "\x7b\"componentLibraryRoot\": \"x\"\x7d") (.ofText "c.json".toList) =
      .ok [("componentLibraryRoot".toList, .text ['x'])] := by cbv
  obtain ⟨o, made⟩ := succeeds (["--config", "c.json"].map String.toList) ⟨[(.config, "c.json".toList)]⟩ _ _ _ _
    (by decide +kernel) (by decide) config rfl rfl
  obtain ⟨m, merged, names, -⟩ := (options_eq_ok_iff (by decide) config).mp made
  have named := (namesLibrary_merge merged).mp names
  revert named
  unfold NamesLibrary
  decide

end Retint.CommandLine
