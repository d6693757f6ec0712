import Mathlib.Data.List.Nodup
import RoutePattern.Options.Coding

/-!
# Reading options that were written

What is written of options is read again, in each of the forms that a document may have: an object with some
of the fields, in any order and among members of other names, or a list of the first fields. What a document
leaves out is as usual. Reading turns a document into settings, one for each field that is there, and these
settings are made in the order of the fields; since each is about a field of its own, options are described
by what they set each field to (`Options.setting`).

## Main definitions

* `Options.setting` — what a field is set to.
* `Options.keeping` — options that are as usual but for some fields.
* `Options.decode?_written` — all forms of a document are read alike.
-/

namespace RoutePattern.Options

variable {o o' : Options} {fields : List Field} {field : Field} {members extra : List (Text × Document)}

/-! ## Settings -/

/-- What a field is set to. -/
def setting (o : Options) : Field → Setting
  | .escape => .escape o.escape
  | .nameStart => .nameStart o.nameStart
  | .nameEnd => .nameEnd o.nameEnd
  | .valueCharset => .valueCharset o.valueCharset
  | .nameCharset => .nameCharset o.nameCharset
  | .optionalStart => .optionalStart o.optionalStart
  | .optionalEnd => .optionalEnd o.optionalEnd
  | .wildcard => .wildcard o.wildcard

/-- The options that are like these in some fields, and as usual in the others. -/
def keeping (o : Options) (fields : List Field) : Options where
  escape := if .escape ∈ fields then o.escape else ({} : Options).escape
  nameStart := if .nameStart ∈ fields then o.nameStart else ({} : Options).nameStart
  nameEnd := if .nameEnd ∈ fields then o.nameEnd else ({} : Options).nameEnd
  valueCharset := if .valueCharset ∈ fields then o.valueCharset else ({} : Options).valueCharset
  nameCharset := if .nameCharset ∈ fields then o.nameCharset else ({} : Options).nameCharset
  optionalStart := if .optionalStart ∈ fields then o.optionalStart else ({} : Options).optionalStart
  optionalEnd := if .optionalEnd ∈ fields then o.optionalEnd else ({} : Options).optionalEnd
  wildcard := if .wildcard ∈ fields then o.wildcard else ({} : Options).wildcard

/-- Options are what they set their fields to. -/
theorem eq_of_setting (h : ∀ field, o.setting field = o'.setting field) : o = o' := by
  obtain ⟨_, _, _, _, _, _, _, _⟩ := o
  obtain ⟨_, _, _, _, _, _, _, _⟩ := o'
  cases h .escape
  cases h .nameStart
  cases h .nameEnd
  cases h .valueCharset
  cases h .nameCharset
  cases h .optionalStart
  cases h .optionalEnd
  cases h .wildcard
  rfl

theorem setting_apply (o o' : Options) (field other : Field) :
    (o'.apply (o.setting field)).setting other =
      if other = field then o.setting other else o'.setting other := by
  cases field <;> cases other <;> rfl

theorem setting_keeping (o : Options) (fields : List Field) (field : Field) :
    (o.keeping fields).setting field =
      if field ∈ fields then o.setting field else ({} : Options).setting field := by
  cases field <;> exact apply_ite _ _ _ _

theorem setting_foldl_apply (o o' : Options) (fields : List Field) (other : Field) :
    ((fields.map o.setting).foldl apply o').setting other =
      if other ∈ fields then o.setting other else o'.setting other := by
  induction fields generalizing o' with
  | nil => rfl
  | cons field fields ih =>
    rw [List.map_cons, List.foldl_cons, ih, setting_apply]
    by_cases hmem : other ∈ fields <;> by_cases heq : other = field <;> simp [hmem, heq]

/-- Settings of some fields make options that are as usual in the others. -/
theorem ofSettings_map_setting (o : Options) (fields : List Field) :
    ofSettings (fields.map o.setting) = o.keeping fields :=
  eq_of_setting fun field => by rw [ofSettings, setting_foldl_apply, setting_keeping]

/-! ## Fields -/

theorem Field.mem_all (field : Field) : field ∈ Field.all := by
  cases field <;> decide

theorem Field.ofKey?_key (field : Field) : Field.ofKey? field.key = some field := by
  cases field <;> decide

/-- Fields have names of their own. -/
theorem Field.name_injective : Function.Injective Field.name := by
  intro field other h
  have hkey : field.key = other.key := by
    rw [← Text.toString_ofString field.key, ← Text.toString_ofString other.key]
    exact congrArg Text.toString h
  have hsome := Field.ofKey?_key field
  rw [hkey, Field.ofKey?_key other] at hsome
  exact (Option.some.inj hsome).symm

/-- The value that is written of a field is read again. -/
theorem Field.setting?_encode (o : Options) (field : Field) :
    field.setting? (field.encode o) = some (o.setting field) := by
  cases field with
  | nameEnd =>
    obtain ⟨_, _, end?, _, _, _, _, _⟩ := o
    cases end? <;> rfl
  | escape | nameStart | valueCharset | nameCharset | optionalStart | optionalEnd | wildcard => rfl

/-- Options that are kept in all fields are the same. -/
theorem keeping_all (o : Options) : o.keeping Field.all = o :=
  eq_of_setting fun field => by rw [setting_keeping, if_pos field.mem_all]

/-! ## Objects -/

/-- The member of a field. -/
def Field.member (o : Options) (field : Field) : Text × Document := (field.name, field.encode o)

theorem perm_valuesOf {members' : List (Text × Document)} (h : members.Perm members') (key : Text) :
    (Document.valuesOf members key).Perm (Document.valuesOf members' key) :=
  (h.filter _).map _

theorem valuesOf_append (members extra : List (Text × Document)) (key : Text) :
    Document.valuesOf (members ++ extra) key =
      Document.valuesOf members key ++ Document.valuesOf extra key := by
  rw [Document.valuesOf, List.filter_append, List.map_append]
  rfl

/-- Members of other names give a field no value. -/
theorem valuesOf_of_forall_ne {key : Text} (h : ∀ member ∈ extra, member.1 ≠ key) :
    Document.valuesOf extra key = [] := by
  rw [Document.valuesOf, List.map_eq_nil_iff, List.filter_eq_nil_iff]
  intro member hmember
  simpa using h member hmember

/-- A field has the value of its own member. -/
theorem valuesOf_map_member (o : Options) (hnodup : fields.Nodup) (field : Field) :
    Document.valuesOf (fields.map (Field.member o)) field.name =
      if field ∈ fields then [field.encode o] else [] := by
  have hown : (fun member : Text × Document => member.1 == field.name) ∘ Field.member o =
      fun other => other == field := by
    funext other
    rw [Bool.eq_iff_iff, Function.comp_apply, beq_iff_eq, beq_iff_eq]
    exact Field.name_injective.eq_iff
  rw [Document.valuesOf, List.filter_map, hown, List.filter_beq, hnodup.count]
  split <;> rfl

/-- The settings of an object with the members of some fields, in any order and among others. -/
theorem memberSetting?_eq (o : Options) (hnodup : fields.Nodup)
    (hextra : ∀ member ∈ extra, ∀ field : Field, member.1 ≠ field.name)
    (hperm : members.Perm (fields.map (Field.member o) ++ extra)) (field : Field) :
    memberSetting? members field = some (if field ∈ fields then some (o.setting field) else none) := by
  have hvalues := perm_valuesOf hperm field.name
  rw [valuesOf_append, valuesOf_of_forall_ne fun member h => hextra member h field, List.append_nil,
    valuesOf_map_member o hnodup] at hvalues
  unfold memberSetting?
  by_cases hmem : field ∈ fields
  · rw [if_pos hmem, List.perm_singleton] at hvalues
    rw [hvalues, if_pos hmem]
    simp [Field.setting?_encode]
  · rw [if_neg hmem, List.perm_nil] at hvalues
    rw [hvalues, if_neg hmem]

/-- Settings are made in the order of the fields, whatever the order of the members. -/
theorem memberSettings?_eq (o : Options) (hnodup : fields.Nodup)
    (hextra : ∀ member ∈ extra, ∀ field : Field, member.1 ≠ field.name)
    (hperm : members.Perm (fields.map (Field.member o) ++ extra)) :
    memberSettings? members = some ((Field.all.filter (· ∈ fields)).map o.setting) := by
  have hsettings : memberSetting? members =
      fun field => pure (if field ∈ fields then some (o.setting field) else none) :=
    funext (memberSetting?_eq o hnodup hextra hperm)
  rw [memberSettings?, hsettings, List.mapM_pure, Option.pure_def, Option.map_some, List.filterMap_map,
    ← List.filterMap_eq_map, List.filterMap_filter]
  simp

theorem decode?_object (o : Options) (hnodup : fields.Nodup)
    (hextra : ∀ member ∈ extra, ∀ field : Field, member.1 ≠ field.name)
    (hperm : members.Perm (fields.map (Field.member o) ++ extra)) :
    decode? (.object members) = some (o.keeping fields) := by
  have hkept : o.keeping (Field.all.filter (· ∈ fields)) = o.keeping fields :=
    eq_of_setting fun field => by simp [setting_keeping, Field.mem_all]
  rw [decode?, memberSettings?_eq o hnodup hextra hperm, Option.map_some, ofSettings_map_setting, hkept]

/-- An object of nothing but some fields. -/
theorem decode?_object_members (o : Options) (hnodup : fields.Nodup) :
    decode? (.object (fields.map (Field.member o))) = some (o.keeping fields) := by
  have hextra : ∀ member ∈ ([] : List (Text × Document)), ∀ field : Field, member.1 ≠ field.name :=
    fun _ h => nomatch h
  exact decode?_object o hnodup hextra (by rw [List.append_nil])

/-! ## Lists -/

theorem itemSettings?_append (o : Options) (front behind : List Field) :
    itemSettings? (front ++ behind) (front.map (Field.encode o)) = some (front.map o.setting) := by
  induction front with
  | nil => cases behind <;> rfl
  | cons field front ih =>
    rw [List.cons_append, List.map_cons, itemSettings?, Field.setting?_encode, ih]
    rfl

theorem decode?_list (o : Options) (n : Nat) :
    decode? (.list ((Field.all.take n).map (Field.encode o))) = some (o.keeping (Field.all.take n)) := by
  have h := itemSettings?_append o (Field.all.take n) (Field.all.drop n)
  rw [List.take_append_drop] at h
  rw [decode?, h, Option.map_some, ofSettings_map_setting]

/-! ## All forms -/

/-- **Options that were written are read again.** What is written of all fields gives the same options. With
the members of some fields, in any order and among members of other names, the options are as they were in
these fields and as usual in the others. A list of the first fields is read like the object of them. -/
theorem decode?_written (o : Options) :
    decode? o.encode = some o ∧
      (∀ (fields : List Field) (members extra : List (Text × Document)), fields.Nodup →
        (∀ member ∈ extra, ∀ field : Field, member.1 ≠ field.name) →
        members.Perm (fields.map (fun field => (field.name, field.encode o)) ++ extra) →
        decode? (.object members) = some (o.keeping fields)) ∧
      ∀ n, decode? (.list ((Field.all.take n).map fun field => field.encode o)) =
          some (o.keeping (Field.all.take n)) ∧
        decode? (.object ((Field.all.take n).map fun field => (field.name, field.encode o))) =
          some (o.keeping (Field.all.take n)) := by
  have hall : Field.all.Nodup := by decide
  refine ⟨?_, fun fields members extra hnodup hextra hperm => decode?_object o hnodup hextra hperm,
    fun n => ⟨decode?_list o n, decode?_object_members o (hall.take)⟩⟩
  rw [← congrArg some (keeping_all o)]
  exact decode?_object_members o hall

/-- Two fields out of order, with a member of another name between them. -/
theorem decode?_written_partial :
    decode? (.object [(Field.nameEnd.name, .text ['>']), (Text.ofString "colour", .null),
      (Field.nameStart.name, .text ['<'])]) = some { nameStart := '<', nameEnd := some '>' } := by
  let o : Options := { escape := '!', nameStart := '<', nameEnd := some '>' }
  have hextra : ∀ member ∈ [(Text.ofString "colour", Document.null)], ∀ field : Field,
      member.1 ≠ field.name := by
    intro member hmember field
    obtain rfl := List.mem_singleton.mp hmember
    cases field <;> decide
  exact (decode?_written o).2.1 [.nameEnd, .nameStart] _ [(Text.ofString "colour", .null)] (by decide) hextra
    (.cons _ (.swap _ _ _))

end RoutePattern.Options
