import ContextualQuery.Json.Basic
/-!
# The order of names

A dictionary keeps its names in order, each once (`Dictionary.sorted_ofList`), and entries that stand
so already are the dictionary that they make (`Dictionary.Sorted.ofList_eq`). So `Json.ordered` puts
the members of all objects in order (`Json.ordered_ordered`) and leaves alone what is in order
(`Json.Ordered.eq`).
-/

namespace ContextualQuery

/-! ## 1. Dictionaries -/

namespace Dictionary

variable {α : Type} {name : String} {a : α} {d : Dictionary α}

/-- The names stand in their order, each once. -/
def Sorted (d : Dictionary α) : Prop := d.names.Pairwise (· < ·)

theorem sorted_cons_iff : Sorted ((name, a) :: d) ↔ (∀ n ∈ d.names, name < n) ∧ Sorted d :=
  List.pairwise_cons

/-- An entry whose name comes first is put in front. -/
theorem insert_of_lt (h : ∀ n ∈ d.names, name < n) : insert name a d = (name, a) :: d := by
  cases d with
  | nil => rfl
  | cons e d =>
    obtain ⟨other, b⟩ := e
    rw [insert, if_pos (h other List.mem_cons_self)]

/-- An entry whose name comes last is put at the end. -/
theorem insert_of_gt (h : ∀ n ∈ d.names, n < name) : insert name a d = d ++ [(name, a)] := by
  induction d with
  | nil => rfl
  | cons e d ih =>
    obtain ⟨other, b⟩ := e
    obtain ⟨hother, hd⟩ := List.forall_mem_cons.mp h
    have hne : name ≠ other := fun he => String.lt_irrefl other (he ▸ hother)
    rw [insert, if_neg (String.lt_asymm hother), if_neg hne, ih hd]
    rfl

theorem mem_insert {e : String × α} (h : e ∈ insert name a d) : e = (name, a) ∨ e ∈ d := by
  induction d with
  | nil => exact .inl (List.mem_singleton.mp h)
  | cons e' d ih =>
    obtain ⟨other, b⟩ := e'
    rw [insert] at h
    split at h
    · exact List.mem_cons.mp h
    · split at h
      · rcases List.mem_cons.mp h with he | he
        · exact .inl he
        · exact .inr (List.mem_cons_of_mem _ he)
      · rcases List.mem_cons.mp h with rfl | he
        · exact .inr List.mem_cons_self
        · rcases ih he with rfl | hd
          · exact .inl rfl
          · exact .inr (List.mem_cons_of_mem _ hd)

theorem Sorted.insert (h : Sorted d) (name : String) (a : α) : Sorted (insert name a d) := by
  induction d with
  | nil => exact List.pairwise_singleton _ _
  | cons e d ih =>
    obtain ⟨other, b⟩ := e
    obtain ⟨hother, hd⟩ := sorted_cons_iff.mp h
    rw [Dictionary.insert]
    split
    · rename_i hlt
      refine sorted_cons_iff.mpr ⟨List.forall_mem_cons.mpr ⟨hlt, fun n hn => ?_⟩, h⟩
      exact String.lt_trans hlt (hother n hn)
    · rename_i hlt
      split
      · rename_i heq
        subst heq
        exact sorted_cons_iff.mpr ⟨hother, hd⟩
      · rename_i hne
        have hgt : other < name := Std.lt_of_le_of_ne (String.not_lt.mp hlt) (Ne.symm hne)
        refine sorted_cons_iff.mpr ⟨fun n hn => ?_, ih hd⟩
        obtain ⟨e, he, rfl⟩ := List.mem_map.mp hn
        rcases mem_insert he with rfl | he
        · exact hgt
        · exact hother e.1 (List.mem_map_of_mem he)

theorem sorted_ofList (entries : List (String × α)) : Sorted (ofList entries) := by
  have hfold (d : Dictionary α) (h : Sorted d) :
      Sorted (entries.foldl (fun d e => Dictionary.insert e.1 e.2 d) d) := by
    induction entries generalizing d with
    | nil => exact h
    | cons e entries ih => exact ih _ (h.insert e.1 e.2)
  exact hfold [] List.Pairwise.nil

theorem mem_of_mem_ofList {entries : List (String × α)} {e : String × α} (h : e ∈ ofList entries) :
    e ∈ entries := by
  have hfold (entries : List (String × α)) (d : Dictionary α)
      (h : e ∈ entries.foldl (fun d e => Dictionary.insert e.1 e.2 d) d) : e ∈ d ∨ e ∈ entries := by
    induction entries generalizing d with
    | nil => exact .inl h
    | cons e' entries ih =>
      rcases ih _ h with h | h
      · rcases mem_insert h with rfl | h
        · exact .inr List.mem_cons_self
        · exact .inl h
      · exact .inr (List.mem_cons_of_mem _ h)
  exact (hfold entries [] h).resolve_left List.not_mem_nil

/-- Entries that stand in order are the dictionary that they make. -/
theorem Sorted.ofList_eq (h : Sorted d) : ofList d = d := by
  have hfold (entries acc : Dictionary α) (hs : Sorted (acc ++ entries)) :
      entries.foldl (fun d e => Dictionary.insert e.1 e.2 d) acc = acc ++ entries := by
    induction entries generalizing acc with
    | nil => exact (List.append_nil acc).symm
    | cons e entries ih =>
      have hsorted := hs
      rw [Sorted, names, List.map_append] at hsorted
      have hbefore := (List.pairwise_append.mp hsorted).2.2
      have hlast : Dictionary.insert e.1 e.2 acc = acc ++ [e] :=
        insert_of_gt fun n hn => hbefore n hn e.1 List.mem_cons_self
      have hnext : acc ++ e :: entries = acc ++ [e] ++ entries := by
        rw [List.append_assoc]
        rfl
      rw [List.foldl_cons, hlast, hnext]
      exact ih _ (hnext ▸ hs)
  exact hfold d [] h

end Dictionary

/-! ## 2. Objects -/

namespace Json

/-- The members of every object stand in the order of their names, each once. -/
inductive Ordered : Json → Prop
  | null : Ordered .null
  | bool (b : Bool) : Ordered (.bool b)
  | integer (n : Int) : Ordered (.integer n)
  | double (x : Double) : Ordered (.double x)
  | text (s : String) : Ordered (.text s)
  | array {items : List Json} (parts : ∀ j ∈ items, Ordered j) : Ordered (.array items)
  | object {members : List (String × Json)} (sorted : Dictionary.Sorted members)
      (parts : ∀ m ∈ members, Ordered m.2) : Ordered (.object members)

mutual

theorem ordered_ordered (j : Json) : j.ordered.Ordered := by
  cases j with
  | array items =>
    rw [ordered]
    exact .array (ordered_orderedItems items)
  | object members =>
    rw [ordered]
    refine .object (Dictionary.sorted_ofList _) fun m hm => ?_
    exact ordered_orderedMembers members m (Dictionary.mem_of_mem_ofList hm)
  | null => exact .null
  | bool b => exact .bool b
  | integer n => exact .integer n
  | double x => exact .double x
  | text s => exact .text s

theorem ordered_orderedItems (items : List Json) : ∀ j ∈ orderedItems items, j.Ordered := by
  cases items with
  | nil => exact fun j hj => by cases hj
  | cons j items =>
    rw [orderedItems]
    exact List.forall_mem_cons.mpr ⟨ordered_ordered j, ordered_orderedItems items⟩

theorem ordered_orderedMembers (members : List (String × Json)) :
    ∀ m ∈ orderedMembers members, m.2.Ordered := by
  cases members with
  | nil => exact fun m hm => by cases hm
  | cons m members =>
    obtain ⟨name, j⟩ := m
    rw [orderedMembers]
    exact List.forall_mem_cons.mpr ⟨ordered_ordered j, ordered_orderedMembers members⟩

end

mutual

/-- What is in order stays as it is. -/
theorem Ordered.eq {j : Json} (h : j.Ordered) : j.ordered = j := by
  cases h with
  | array parts => rw [ordered, orderedItems_eq parts]
  | object sorted parts => rw [ordered, orderedMembers_eq parts, sorted.ofList_eq]
  | _ => rw [ordered] <;> nofun

theorem orderedItems_eq {items : List Json} (h : ∀ j ∈ items, j.Ordered) :
    orderedItems items = items := by
  cases items with
  | nil => rw [orderedItems]
  | cons j items =>
    obtain ⟨hj, hitems⟩ := List.forall_mem_cons.mp h
    rw [orderedItems, hj.eq, orderedItems_eq hitems]

theorem orderedMembers_eq {members : List (String × Json)} (h : ∀ m ∈ members, m.2.Ordered) :
    orderedMembers members = members := by
  cases members with
  | nil => rw [orderedMembers]
  | cons m members =>
    obtain ⟨name, j⟩ := m
    obtain ⟨hj, hmembers⟩ := List.forall_mem_cons.mp h
    rw [orderedMembers, Ordered.eq hj, orderedMembers_eq hmembers]

end

end Json

end ContextualQuery
