import Mathlib
import Sexpr.Json.Record

/-!
# Records in JSON

An object that gives some of the fields of a record (`Gives`) may have them in any order,
and other members anywhere between them. Each field is found as it is given
(`fields?_of_gives`); where a field is given twice, the whole record is refused
(`fields?_of_twice`).
-/

namespace Sexpr
namespace Json

theorem mapM_eq_some_iff {α β : Type} {f : α → Option β} {as : List α} {bs : List β} :
    as.mapM f = some bs ↔ List.Forall₂ (fun a b => f a = some b) as bs := by
  induction as generalizing bs with
  | nil =>
      rw [List.mapM_nil, List.forall₂_nil_left_iff]
      exact Option.some_inj.trans eq_comm
  | cons a as ih =>
      rw [List.mapM_cons]
      constructor
      · intro h
        obtain ⟨b, hb, h⟩ := Option.bind_eq_some_iff.1 h
        obtain ⟨more, hmore, h⟩ := Option.bind_eq_some_iff.1 h
        cases h
        exact .cons hb (ih.1 hmore)
      · rintro (_ | ⟨hb, hmore⟩)
        rw [hb, ih.2 hmore]
        rfl

/-! ## Members of an object -/

/-- The object has a member with this key and this value. -/
def Has (j : Json) (key : String) (value : Json) : Prop :=
  ∃ members, j = .object members ∧ (some key, value) ∈ members

/-- The object has several members with this key. -/
def Twice (j : Json) (key : String) : Prop :=
  ∃ members, j = .object members ∧ 2 ≤ members.countP (·.1 = some key)

theorem field?_of_mem {members : Members} {key : String} {value : Json} {found : Option Json}
    (h : field? members key = some found) (hmem : (some key, value) ∈ members) :
    found = some value := by
  have hmem : (some key, value) ∈ members.filter (·.1 = some key) := by simp [hmem]
  unfold field? at h
  split at h
  · next hnone =>
    rw [hnone] at hmem
    cases hmem
  · next hone =>
    rw [hone, List.mem_singleton] at hmem
    cases hmem
    exact (Option.some.inj h).symm
  · cases h

theorem field?_of_count {members : Members} {key : String}
    (h : 2 ≤ members.countP (·.1 = some key)) : field? members key = none := by
  rw [List.countP_eq_length_filter] at h
  unfold field?
  split
  · next hnone =>
    rw [hnone] at h
    cases h
  · next hone =>
    rw [hone, List.length_singleton] at h
    exact absurd h (by decide)
  · rfl

/-- Each field is read by its name. -/
theorem exists_mem_zip {names : List String} {key : String} {members : Members}
    {values : List (Option Json)} (h : fields? names (.object members) = some values)
    (hkey : key ∈ names) :
    ∃ found, field? members key = some found ∧ (key, found) ∈ names.zip values := by
  unfold fields? at h
  dsimp only at h
  split at h
  · have hrow := mapM_eq_some_iff.1 h
    clear h
    induction hrow with
    | nil => cases hkey
    | cons hfirst _ ih =>
        rw [List.zip_cons_cons]
        rcases List.mem_cons.1 hkey with rfl | hkey
        · exact ⟨_, hfirst, List.mem_cons_self⟩
        · obtain ⟨found, hfound, hmem⟩ := ih hkey
          exact ⟨found, hfound, List.mem_cons_of_mem _ hmem⟩
  · cases h

/-- What is read of a field is what the object has there. -/
theorem mem_zip_of_has {names : List String} {key : String} {j value : Json}
    {values : List (Option Json)} (h : fields? names j = some values) (hkey : key ∈ names)
    (hvalue : j.Has key value) : (key, some value) ∈ names.zip values := by
  obtain ⟨members, rfl, hmem⟩ := hvalue
  obtain ⟨found, hfound, hzip⟩ := exists_mem_zip h hkey
  rwa [field?_of_mem hfound hmem] at hzip

/-- **A record is refused if one of its fields is given twice.** -/
theorem fields?_of_twice {names : List String} {key : String} {j : Json} (hkey : key ∈ names)
    (h : j.Twice key) : fields? names j = none := by
  obtain ⟨members, rfl, hcount⟩ := h
  rw [Option.eq_none_iff_forall_ne_some]
  intro values hvalues
  obtain ⟨found, hfound, -⟩ := exists_mem_zip hvalues hkey
  rw [field?_of_count hcount] at hfound
  cases hfound

/-! ## Fields that are given -/

/-- The object gives those of the fields that `given` says, in any order. Its other keys
are texts that name no field. -/
def Gives (given : String → Bool) (fields : List (String × Json)) (j : Json) : Prop :=
  ∃ others members : List (String × Json), (∀ m ∈ others, m.1 ∉ fields.map Prod.fst) ∧
    members.Perm (fields.filter (given ·.1) ++ others) ∧ j = .record members

theorem filter_of_notMem {fields : List (String × Json)} {key : String}
    (h : key ∉ fields.map Prod.fst) : fields.filter (·.1 = key) = [] := by
  rw [List.filter_eq_nil_iff]
  intro m hm
  rw [decide_eq_true_eq]
  rintro rfl
  exact h (List.mem_map_of_mem hm)

theorem filter_of_mem {fields : List (String × Json)} (hkeys : (fields.map Prod.fst).Nodup)
    {m : String × Json} (hm : m ∈ fields) : fields.filter (·.1 = m.1) = [m] := by
  induction fields with
  | nil => cases hm
  | cons f fields ih =>
      rw [List.map_cons, List.nodup_cons] at hkeys
      obtain ⟨hf, hkeys⟩ := hkeys
      rcases List.mem_cons.1 hm with rfl | hm
      · rw [List.filter_cons_of_pos (by simp), filter_of_notMem hf]
      · have hne : f.1 ≠ m.1 := by
          intro hsame
          exact hf (hsame ▸ List.mem_map_of_mem hm)
        rw [List.filter_cons_of_neg (by simpa using hne), ih hkeys hm]

/-- The members of a record with one key. -/
theorem filter_record (members : List (String × Json)) (key : String) :
    (members.map fun (key, value) => (some key, value)).filter (·.1 = some key) =
      (members.filter (·.1 = key)).map fun (key, value) => (some key, value) := by
  rw [List.filter_map]
  congr 2
  funext m
  simp

theorem field?_of_perm {given : String → Bool} {fields others members : List (String × Json)}
    (hkeys : (fields.map Prod.fst).Nodup) (hothers : ∀ m ∈ others, m.1 ∉ fields.map Prod.fst)
    (hmembers : members.Perm (fields.filter (given ·.1) ++ others)) {m : String × Json}
    (hm : m ∈ fields) :
    field? (members.map fun (key, value) => (some key, value)) m.1 =
      some (if given m.1 then some m.2 else none) := by
  have hnone : others.filter (·.1 = m.1) = [] := by
    apply filter_of_notMem
    rw [List.mem_map]
    rintro ⟨other, hother, hsame⟩
    exact hothers other hother (hsame ▸ List.mem_map_of_mem hm)
  have hfilter := hmembers.filter (·.1 = m.1)
  rw [List.filter_append, hnone, List.append_nil, List.filter_comm, filter_of_mem hkeys hm]
    at hfilter
  unfold field?
  rw [filter_record]
  by_cases hgiven : given m.1 = true
  · have hone : [m].filter (given ·.1) = [m] := by simp [hgiven]
    rw [hone, List.perm_singleton] at hfilter
    rw [hfilter, if_pos hgiven]
    rfl
  · have hzero : [m].filter (given ·.1) = [] := by simp [hgiven]
    rw [hzero, List.perm_nil] at hfilter
    rw [hfilter, if_neg hgiven]
    rfl

/-- **Each field is found if it is given, and no other**, in whatever order the members
are. -/
theorem fields?_of_gives {given : String → Bool} {fields : List (String × Json)}
    {names : List String} {j : Json} (hnames : fields.map Prod.fst = names) (hkeys : names.Nodup)
    (h : j.Gives given fields) :
    fields? names j = some (fields.map fun m => if given m.1 then some m.2 else none) := by
  subst hnames
  obtain ⟨others, members, hothers, hmembers, rfl⟩ := h
  have htexts : (members.map fun (key, value) => (some key, value)).all (·.1.isSome) = true := by
    simp
  unfold record fields?
  dsimp only
  rw [if_pos htexts, mapM_eq_some_iff, List.forall₂_map_left_iff, List.forall₂_map_right_iff,
    List.forall₂_same]
  intro m hm
  exact field?_of_perm hkeys hothers hmembers hm

/-- A record that is written out gives all its fields. -/
theorem gives_record (fields : List (String × Json)) :
    Gives (fun _ => true) fields (.record fields) := by
  refine ⟨[], fields, nofun, ?_, rfl⟩
  rw [List.append_nil, List.filter_true]

end Json
end Sexpr
