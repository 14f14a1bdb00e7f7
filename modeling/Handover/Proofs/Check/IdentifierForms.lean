import Handover.Proofs.Check.Accepted
import Mathlib.Data.List.Induction
import Mathlib.Data.Set.Function

/-!
# The report on identifier forms

The registered names fall into classes of one identifier form (`FormClass.IsPartition`): every class
has all names of its form in the order of their registration, every name is in a class, and the
classes come in the order in which their first members were registered. There is just one way to
divide names like that (`FormClass.IsPartition.eq`), and grouping them by form finds it
(`isPartition_formClasses`).

The check of identifier forms reports at most two findings for a class (`FormClass.findings`), one
for a class of several names and one for a form that cannot be bound, and nothing else
(`nameFindings_eq`). All of it is `nameFindings_exact`.
-/

set_option autoImplicit false
set_option relaxedAutoImplicit false

namespace Handover

/-! ### Classes of names -/

/-- Names of one identifier form, in the order of their registration. -/
structure FormClass where
  first : String
  others : List String
deriving DecidableEq

namespace FormClass

/-- The names of a class. -/
def members (group : FormClass) : List String := group.first :: group.others

/-- The identifier form of the names of a class. -/
def form (group : FormClass) : String := sanitize group.first

/-- The finding of a class of several names, which lists them all. -/
def collision? (group : FormClass) : Option Finding :=
  if group.others = [] then none
  else some ⟨"sanitized_collisions", .error,
    "Names " ++ ", ".intercalate (group.members.map fun name ↦ "'" ++ name ++ "'") ++
      " all sanitize to '" ++ group.form ++ "'", none, none⟩

/-- The finding of a class whose form cannot be bound, which tells the first name: the form is no
identifier, or a keyword, or else a name that the module binds itself. -/
def unbindable? (group : FormClass) : Option Finding :=
  if Text.isIdentifier group.form = false ∨ group.form ∈ Text.keywords then
    some ⟨"sanitized_collisions", .error, "'" ++ group.first ++ "' sanitizes to '" ++ group.form ++
      "', not a usable identifier", none, none⟩
  else if group.form ∈ reservedNames then
    some ⟨"sanitized_collisions", .error, "'" ++ group.first ++ "' sanitizes to reserved name '" ++
      group.form ++ "'", none, none⟩
  else none

/-- What is reported of a class. -/
def findings (group : FormClass) : List Finding :=
  group.collision?.toList ++ group.unbindable?.toList

/-- Whether classes divide names by their identifier form, in the order of registration. -/
structure IsPartition (names : List String) (classes : List FormClass) : Prop where
  inOrder : ∀ group ∈ classes, group.members.Sublist names
  mem_iff : ∀ group ∈ classes, ∀ name ∈ names, name ∈ group.members ↔ sanitize name = group.form
  covers : ∀ name ∈ names, ∃ group ∈ classes, name ∈ group.members
  firstsInOrder : (classes.map first).Sublist names

/-- The class of a name. -/
def ofName (names : List String) (name : String) : FormClass :=
  ⟨name, (names.filter fun other ↦ sanitize other = sanitize name).tail⟩

/-! ### Only one partition -/

/-- The part of a list without repetitions that is left of it in a sublist. -/
theorem eq_filter_of_sublist {α : Type} [DecidableEq α] {part all : List α}
    (hpart : part.Sublist all) (hnodup : all.Nodup) : part = all.filter (· ∈ part) := by
  induction hpart with
  | slnil => rfl
  | @cons part rest head hpart ih =>
    obtain ⟨hhead, hrest⟩ := List.nodup_cons.mp hnodup
    rw [List.filter_cons_of_neg (by simpa using fun hmem ↦ hhead (hpart.subset hmem))]
    exact ih hrest
  | @cons_cons part rest head hpart ih =>
    obtain ⟨hhead, hrest⟩ := List.nodup_cons.mp hnodup
    rw [List.filter_cons_of_pos (by simp)]
    refine congrArg (head :: ·) ((ih hrest).trans (List.filter_congr fun item hitem ↦ ?_))
    have hne : item ≠ head := fun heq ↦ hhead (heq ▸ hitem)
    simp [hne]

section Partition

variable {names : List String} {classes : List FormClass} {group : FormClass}

/-- The members of a class are all names of its form. -/
theorem IsPartition.members_eq (hpartition : IsPartition names classes) (hnodup : names.Nodup)
    (hgroup : group ∈ classes) :
    group.members = names.filter fun name ↦ sanitize name = group.form := by
  refine (eq_filter_of_sublist (hpartition.inOrder group hgroup) hnodup).trans ?_
  refine List.filter_congr fun name hname ↦ ?_
  exact decide_eq_decide.mpr (hpartition.mem_iff group hgroup name hname)

/-- A class is told by its first member. -/
theorem IsPartition.eq_ofName (hpartition : IsPartition names classes) (hnodup : names.Nodup)
    (hgroup : group ∈ classes) : group = ofName names group.first := by
  have hmembers := hpartition.members_eq hnodup hgroup
  rw [ofName, ← form, ← hmembers]
  rfl

/-- The first members of the classes are the names that no name of their form comes before. -/
theorem IsPartition.mem_firsts_iff (hpartition : IsPartition names classes) (hnodup : names.Nodup)
    {name : String} : name ∈ classes.map first ↔
      (names.filter fun other ↦ sanitize other = sanitize name).head? = some name := by
  rw [List.mem_map]
  constructor
  · rintro ⟨group, hgroup, rfl⟩
    rw [← form, ← hpartition.members_eq hnodup hgroup]
    rfl
  · intro hfirst
    have hname : name ∈ names := (List.mem_filter.mp (List.mem_of_head? hfirst)).1
    obtain ⟨group, hgroup, hmember⟩ := hpartition.covers name hname
    rw [(hpartition.mem_iff group hgroup name hname).mp hmember,
      ← hpartition.members_eq hnodup hgroup] at hfirst
    exact ⟨group, hgroup, Option.some.inj hfirst⟩

/-- Names are divided by their form in one way only. -/
theorem IsPartition.eq (hnodup : names.Nodup) {others : List FormClass}
    (hpartition : IsPartition names classes) (hothers : IsPartition names others) :
    classes = others := by
  have hfirsts : classes.map first = others.map first := by
    rw [eq_filter_of_sublist hpartition.firstsInOrder hnodup,
      eq_filter_of_sublist hothers.firstsInOrder hnodup]
    refine List.filter_congr fun name _ ↦ decide_eq_decide.mpr ?_
    rw [hpartition.mem_firsts_iff hnodup, hothers.mem_firsts_iff hnodup]
  have hclasses {classes : List FormClass} (hpartition : IsPartition names classes) :
      classes = (classes.map first).map (ofName names) := by
    rw [List.map_map]
    exact (List.map_id' classes).symm.trans
      (List.map_congr_left fun group ↦ hpartition.eq_ofName hnodup)
  rw [hclasses hpartition, hclasses hothers, hfirsts]

end Partition

end FormClass

/-! ### Grouping by form -/

section Grouping

variable (names : List String)

/-- The classes of some names, which grouping them by form finds. -/
def formClasses : List FormClass :=
  (groupByForm names).entries.map fun group ↦ ⟨group.2.headD "", group.2.tail⟩

variable {names}

/-- A group is a class: it has its first member and the form of that. -/
theorem exists_of_mem_groupByForm {form : String} {members : List String}
    (hgroup : (form, members) ∈ (groupByForm names).entries) :
    ∃ first others, members = first :: others ∧ form = sanitize first ∧
      members = names.filter fun name ↦ sanitize name = form := by
  rw [groupByForm_eq] at hgroup
  obtain ⟨form, hform, hgroup⟩ := List.mem_map.mp hgroup
  obtain ⟨rfl, rfl⟩ := Prod.mk.inj hgroup
  obtain ⟨name, hname, rfl⟩ := List.mem_map.mp (OrderedMap.mem_dedup.mp hform)
  have hmember : name ∈ names.filter fun other ↦ sanitize other = sanitize name := by
    simpa using hname
  cases hmembers : names.filter fun other ↦ sanitize other = sanitize name with
  | nil => simp [hmembers] at hmember
  | cons first others =>
    have hfirst : first ∈ names.filter fun other ↦ sanitize other = sanitize name := by
      simp [hmembers]
    exact ⟨first, others, rfl, by simpa [eq_comm] using (List.mem_filter.mp hfirst).2, rfl⟩

theorem members_of_mem_formClasses {group : FormClass} (hgroup : group ∈ formClasses names) :
    group.members = names.filter fun name ↦ sanitize name = group.form := by
  obtain ⟨⟨form, members⟩, hmem, rfl⟩ := List.mem_map.mp hgroup
  obtain ⟨first, others, rfl, rfl, hmembers⟩ := exists_of_mem_groupByForm hmem
  exact hmembers

theorem firsts_formClasses :
    (formClasses names).map FormClass.first =
      (OrderedMap.dedup (names.map sanitize)).map fun form ↦
        (names.filter fun name ↦ sanitize name = form).headD "" := by
  rw [formClasses, groupByForm_eq, List.map_map, List.map_map]
  rfl

/-- Classes come in the order in which their first members were registered. -/
theorem firsts_formClasses_sublist (names : List String) :
    ((formClasses names).map FormClass.first).Sublist names := by
  rw [firsts_formClasses]
  -- one more name opens a class, or it is behind the first one of its class
  induction names using List.reverseRecOn with
  | nil => exact List.Sublist.slnil
  | append_singleton names name ih =>
    have hheads : ∀ form ∈ OrderedMap.dedup (names.map sanitize),
        ((names ++ [name]).filter fun name ↦ sanitize name = form).headD "" =
          (names.filter fun name ↦ sanitize name = form).headD "" := by
      intro form hform
      obtain ⟨other, hother, rfl⟩ := List.mem_map.mp (OrderedMap.mem_dedup.mp hform)
      have hmember : other ∈ names.filter fun name ↦ sanitize name = sanitize other := by
        simpa using hother
      rw [List.filter_append]
      cases hmembers : names.filter fun name ↦ sanitize name = sanitize other with
      | nil => simp [hmembers] at hmember
      | cons first others => rfl
    rw [List.map_append, List.map_cons, List.map_nil, OrderedMap.dedup_append_singleton]
    split_ifs with hknown
    · rw [List.map_congr_left hheads]
      exact ih.trans (List.sublist_append_left names [name])
    · rw [List.map_append, List.map_congr_left hheads]
      refine ih.append ?_
      have hnone : names.filter (fun other ↦ sanitize other = sanitize name) = [] :=
        List.filter_eq_nil_iff.mpr fun other hother ↦ by
          simpa using fun hform : sanitize other = sanitize name ↦
            hknown (hform ▸ List.mem_map_of_mem hother)
      rw [List.map_cons, List.map_nil, List.filter_append, hnone]
      simp

/-- Grouping names by form divides them by form. -/
theorem isPartition_formClasses (names : List String) :
    FormClass.IsPartition names (formClasses names) where
  inOrder group hgroup := by
    rw [members_of_mem_formClasses hgroup]
    exact List.filter_sublist
  mem_iff group hgroup name hname := by
    rw [members_of_mem_formClasses hgroup, List.mem_filter, decide_eq_true_eq, and_iff_right hname]
  covers name hname := by
    have hgroup := mem_groupByForm hname
    obtain ⟨first, others, hmembers, -, -⟩ := exists_of_mem_groupByForm hgroup
    refine ⟨_, List.mem_map_of_mem hgroup, ?_⟩
    show name ∈ List.headD _ "" :: List.tail _
    rw [hmembers, List.headD_cons, List.tail_cons, ← hmembers]
    simpa using hname
  firstsInOrder := firsts_formClasses_sublist names

end Grouping

/-! ### The report -/

section Report

variable {graph : Graph}

theorem usabilityFindings_eq (group : FormClass) :
    usabilityFindings group.form group.first = group.unbindable?.toList := by
  have hunusable : (!Text.isUsableIdentifier group.form) = true ↔
      Text.isIdentifier group.form = false ∨ group.form ∈ Text.keywords := by
    simp [Text.isUsableIdentifier, Bool.not_and]
  unfold usabilityFindings FormClass.unbindable?
  by_cases hreported : Text.isIdentifier group.form = false ∨ group.form ∈ Text.keywords
  · rw [if_pos (hunusable.mpr hreported), if_pos hreported]
    rfl
  · rw [if_neg (mt hunusable.mp hreported), if_neg hreported]
    by_cases hreserved : group.form ∈ reservedNames
    · rw [if_pos (List.contains_iff_mem.mpr hreserved), if_pos hreserved]
      rfl
    · rw [if_neg (mt List.contains_iff_mem.mp hreserved), if_neg hreserved]
      rfl

/-- The check reports what there is to report of each class. -/
theorem nameFindings_eq (graph : Graph) :
    nameFindings graph = (formClasses graph.tensors.keys).flatMap FormClass.findings := by
  rw [nameFindings, formClasses, List.flatMap_map]
  refine List.flatMap_congr fun ⟨form, members⟩ hgroup ↦ ?_
  obtain ⟨first, others, rfl, rfl, -⟩ := exists_of_mem_groupByForm hgroup
  refine congrArg₂ (· ++ ·) ?_ ?_
  · cases others <;> rfl
  · exact usabilityFindings_eq ⟨first, others⟩

theorem FormClass.findings_eq_nil_iff {group : FormClass} :
    group.findings = [] ↔ group.others = [] ∧ Text.isIdentifier group.form = true ∧
      group.form ∉ Text.keywords ∧ group.form ∉ reservedNames := by
  have hcollision : group.collision? = none ↔ group.others = [] := by simp [collision?]
  have hunbindable : group.unbindable? = none ↔ Text.isIdentifier group.form = true ∧
      group.form ∉ Text.keywords ∧ group.form ∉ reservedNames := by
    unfold unbindable?
    split_ifs with hunusable hreserved
    · simpa using fun hidentifier hkeyword ↦ absurd hunusable (by simp [hidentifier, hkeyword])
    · simp [hreserved]
    · simpa [hreserved] using hunusable
  rw [findings, List.append_eq_nil_iff, Option.toList_eq_nil_iff, Option.toList_eq_nil_iff,
    hcollision, hunbindable]

/-- Nothing is reported of the names exactly if they have different forms, all of which can be
bound. -/
theorem nameFindings_eq_nil_iff (hkeys : graph.tensors.keys.Nodup) :
    nameFindings graph = [] ↔
      Set.InjOn sanitize {name | name ∈ graph.tensors.keys} ∧
        ∀ name ∈ graph.tensors.keys, Text.isIdentifier (sanitize name) = true ∧
          sanitize name ∉ Text.keywords ∧ sanitize name ∉ reservedNames := by
  have hpartition := isPartition_formClasses graph.tensors.keys
  simp only [nameFindings_eq, List.flatMap_eq_nil_iff, FormClass.findings_eq_nil_iff]
  constructor
  · intro hnone
    have hclass (name : String) (hname : name ∈ graph.tensors.keys) :
        ∃ group ∈ formClasses graph.tensors.keys, sanitize name = group.form ∧
          name ∈ group.members := by
      obtain ⟨group, hgroup, hmember⟩ := hpartition.covers name hname
      exact ⟨group, hgroup, (hpartition.mem_iff group hgroup name hname).mp hmember, hmember⟩
    refine ⟨fun name hname other hother hform ↦ ?_, fun name hname ↦ ?_⟩
    · obtain ⟨group, hgroup, hown, hmember⟩ := hclass name hname
      have hothermember := (hpartition.mem_iff group hgroup other hother).mpr (hform ▸ hown)
      rw [FormClass.members, (hnone group hgroup).1, List.mem_singleton] at hmember hothermember
      exact hmember.trans hothermember.symm
    · obtain ⟨group, hgroup, hown, -⟩ := hclass name hname
      exact hown ▸ (hnone group hgroup).2
  · rintro ⟨hinjective, husable⟩ group hgroup
    have hinOrder := hpartition.inOrder group hgroup
    have hregistered {name : String} (hname : name ∈ group.members) :
        name ∈ graph.tensors.keys := hinOrder.subset hname
    have hfirst : group.first ∈ group.members := List.mem_cons_self ..
    refine ⟨List.eq_nil_iff_forall_not_mem.mpr fun other hother ↦ ?_,
      husable _ (hregistered hfirst)⟩
    have hmember : other ∈ group.members := List.mem_cons_of_mem _ hother
    have hform := (hpartition.mem_iff group hgroup other (hregistered hmember)).mp hmember
    have heq : other = group.first := hinjective (hregistered hmember) (hregistered hfirst) hform
    exact (List.nodup_cons.mp (hinOrder.nodup hkeys)).1 (heq ▸ hother)

/-- The check of identifier forms is exact. It reports nothing exactly if no two registered names
have one form and every form is an identifier, no keyword and no name that the module binds itself.
There is one division of the registered names into classes of one form, each with its members and
all classes by their first members in the order of registration, and what the check reports is, for
each class in turn, one error that lists its members if it has several, and then one that tells its
first member if the form cannot be bound.

Assumes: no name is registered twice. -/
theorem nameFindings_exact (graph : Graph) (hkeys : graph.tensors.keys.Nodup) :
    (nameFindings graph = [] ↔
      Set.InjOn sanitize {name | name ∈ graph.tensors.keys} ∧
        ∀ name ∈ graph.tensors.keys, Text.isIdentifier (sanitize name) = true ∧
          sanitize name ∉ Text.keywords ∧ sanitize name ∉ reservedNames) ∧
      ∃ classes, FormClass.IsPartition graph.tensors.keys classes ∧
        (∀ others, FormClass.IsPartition graph.tensors.keys others → others = classes) ∧
        nameFindings graph = classes.flatMap FormClass.findings := by
  have hpartition := isPartition_formClasses graph.tensors.keys
  exact ⟨nameFindings_eq_nil_iff hkeys, formClasses graph.tensors.keys, hpartition,
    fun others hothers ↦ hothers.eq hkeys hpartition, nameFindings_eq graph⟩

/-- A graph with names of one form among others, with a form that is a keyword and with forms that
the module binds itself, one of which two names have. -/
def misnamed : Graph where
  tensors := .ofList (["x/0", "F", "class", "x.0", "n n", "y", "x:0", "se/lf"].map fun name ↦
    (name, { name, shape := [] }))

theorem nameFindings_exact_misnamed :
    misnamed.tensors.keys.Nodup ∧
      (∃ classes, FormClass.IsPartition misnamed.tensors.keys classes ∧
        (∀ others, FormClass.IsPartition misnamed.tensors.keys others → others = classes) ∧
        nameFindings misnamed = classes.flatMap FormClass.findings) ∧
      (nameFindings misnamed).map Finding.message =
        ["Names 'x/0', 'x.0', 'x:0' all sanitize to 'x_0'", "'F' sanitizes to reserved name 'F'",
          "'class' sanitizes to 'class', not a usable identifier",
          "'n n' sanitizes to 'n n', not a usable identifier"] := by
  have hkeys : misnamed.tensors.keys.Nodup := OrderedMap.nodup_keys_ofList _
  exact ⟨hkeys, (nameFindings_exact misnamed hkeys).2, by decide +kernel⟩

end Report

end Handover
