import Soql.Proofs.JsonText

/-!
# Records by the names of their fields

What an object says about the fields of a record can be told by name: the values under the name of a
field are none, and there may be a default, or one, or too many. The same is told by going through the
members in their order with a draft of the record (`bind_takeAll?_finish?`), as a reader does that has
to decide about a member when it meets it.
-/

namespace Soql.Json

/-! ### By name -/

/-- The values of the members whose keys mean the name. -/
def values (ms : List (Quotation × Value)) (name : String) : List Value :=
  ms.filterMap fun m => if m.1.string? = some name then some m.2 else none

namespace Value

/-- What stands under a name of an object. -/
def under : Value → String → List Value
  | .object ms => values ms
  | _ => fun _ => []

/-- What stands under the names of an object all of whose keys mean something. -/
def members? : Value → Option (String → List Value)
  | .object ms => if ms.all (·.1.string?.isSome) then some (values ms) else none
  | _ => none

end Value

/-- A field by the values under its name. -/
def field? {α : Type} (vs : List Value) (decode : Value → Option α) (default : Option α) : Option α :=
  match vs with
  | [] => default
  | [v] => decode v
  | _ => none

/-- The fields of a record with what their values say. -/
inductive Columns : (δ ρ : Type) → Type 1 where
  | nil : Columns Unit Unit
  | cons {α δ ρ : Type} (name : String) (decode : Value → Option α) (default : Option α)
    (rest : Columns δ ρ) : Columns (Option α × δ) (α × ρ)

namespace Columns
variable {δ ρ : Type}

def names {δ ρ : Type} : Columns δ ρ → List String
  | .nil => []
  | .cons name _ _ rest => name :: rest.names

def record? {δ ρ : Type} : Columns δ ρ → (String → List Value) → Option ρ
  | .nil, _ => some ()
  | .cons name decode default rest, look =>
    (field? (look name) decode default).bind fun a => (rest.record? look).map (a, ·)

@[simp] theorem map_record?_nil {α : Type} (make : Unit → α) (look : String → List Value) :
    (Columns.nil.record? look).map make = some (make ()) := rfl

@[simp] theorem map_record?_cons {α β : Type} (name : String) (decode : Value → Option α)
    (default : Option α) (rest : Columns δ ρ) (make : α × ρ → β) (look : String → List Value) :
    ((cons name decode default rest).record? look).map make =
      (field? (look name) decode default).bind fun a => (rest.record? look).map fun as => make (a, as) := by
  rw [record?]
  cases field? (look name) decode default with
  | none => rfl
  | some a => exact Option.map_map ..

/-! ### Member by member -/

def blank {δ ρ : Type} : Columns δ ρ → δ
  | .nil => ()
  | .cons _ _ _ rest => (none, rest.blank)

/-- Takes a member into the draft, or passes over one that no field is named after. -/
def take? {δ ρ : Type} (key : String) (v : Value) : Columns δ ρ → δ → Option δ
  | .nil, draft => some draft
  | .cons name decode _ rest, (slot, slots) =>
    if key = name then
      match slot with
      | some _ => none
      | none => (decode v).map fun a => (some a, slots)
    else (rest.take? key v slots).map (slot, ·)

theorem take?_cons {α : Type} (key : String) (v : Value) (name : String) (decode : Value → Option α)
    (default : Option α) (rest : Columns δ ρ) (slot : Option α) (slots : δ) :
    take? key v (.cons name decode default rest) (slot, slots) =
      if key = name then
        match slot with
        | some _ => none
        | none => (decode v).map fun a => (some a, slots)
      else (rest.take? key v slots).map (slot, ·) := rfl

def takeAll? (cols : Columns δ ρ) : δ → List (Quotation × Value) → Option δ
  | draft, [] => some draft
  | draft, m :: ms => m.1.string?.bind fun key => (cols.take? key m.2 draft).bind (takeAll? cols · ms)

def finish? {δ ρ : Type} : Columns δ ρ → δ → Option ρ
  | .nil, _ => some ()
  | .cons _ _ default rest, (slot, slots) =>
    (slot.or default).bind fun a => (rest.finish? slots).map (a, ·)

/-! ### Drafts by name -/

/-- What a draft holds of a field. -/
def slot? {α : Type} (vs : List Value) (decode : Value → Option α) : Option (Option α) :=
  match vs with
  | [] => some none
  | [v] => (decode v).map some
  | _ => none

def draft? {δ ρ : Type} : Columns δ ρ → (String → List Value) → Option δ
  | .nil, _ => some ()
  | .cons name decode _ rest, look =>
    (slot? (look name) decode).bind fun slot => (rest.draft? look).map (slot, ·)

/-- One more value under a name. -/
def push (look : String → List Value) (key : String) (v : Value) (name : String) : List Value :=
  if key = name then look name ++ [v] else look name

variable {cols : Columns δ ρ} {look : String → List Value}

theorem draft?_congr {look' : String → List Value} (h : ∀ name ∈ cols.names, look name = look' name) :
    cols.draft? look = cols.draft? look' := by
  induction cols with
  | nil => rfl
  | cons name decode default rest ih =>
    rw [draft?, draft?, h name List.mem_cons_self, ih fun n hn => h n (List.mem_cons_of_mem _ hn)]

theorem draft?_nil (cols : Columns δ ρ) : cols.draft? (fun _ => []) = some cols.blank := by
  induction cols with
  | nil => rfl
  | cons name decode default rest ih =>
    rw [draft?, ih]
    rfl

theorem draft?_push_of_not_mem {key : String} (h : key ∉ cols.names) (v : Value) :
    cols.draft? (push look key v) = cols.draft? look :=
  draft?_congr fun name hn => if_neg (by rintro rfl; exact h hn)

theorem slot?_append_singleton {α : Type} (vs : List Value) (v : Value) (decode : Value → Option α) :
    slot? (vs ++ [v]) decode = (slot? vs decode).bind fun slot =>
      match slot with
      | some _ => none
      | none => (decode v).map some := by
  match vs with
  | [] => rfl
  | [u] =>
    show none = ((decode u).map some).bind _
    cases decode u <;> rfl
  | u :: u' :: vs => rfl

/-- Taking a member into the draft is putting its value under its name. -/
theorem bind_take? (hn : cols.names.Nodup) (key : String) (v : Value) :
    (cols.draft? look).bind (cols.take? key v) = cols.draft? (push look key v) := by
  induction cols with
  | nil => rfl
  | cons name decode default rest ih =>
    obtain ⟨hname, hrest⟩ := List.nodup_cons.1 hn
    rw [draft?, draft?]
    by_cases hk : key = name
    · subst hk
      rw [draft?_push_of_not_mem hname, push, if_pos rfl, slot?_append_singleton]
      cases slot? (look key) decode with
      | none => rfl
      | some slot =>
        cases rest.draft? look with
        | none => cases slot <;> cases decode v <;> rfl
        | some slots =>
          show take? key v (.cons key decode default rest) (slot, slots) = _
          rw [take?_cons, if_pos rfl]
          cases slot <;> cases decode v <;> rfl
    · rw [push, if_neg hk, ← ih hrest]
      cases slot? (look name) decode with
      | none => rfl
      | some slot =>
        cases rest.draft? look with
        | none => rfl
        | some slots =>
          show take? key v (.cons name decode default rest) (slot, slots) = _
          rw [take?_cons, if_neg hk]
          rfl

theorem append_values_cons {k : Quotation} {key : String} (h : k.string? = some key) (v : Value)
    (ms : List (Quotation × Value)) :
    (fun name => look name ++ values ((k, v) :: ms) name) =
      fun name => push look key v name ++ values ms name := by
  funext name
  by_cases hk : key = name <;> simp [values, push, h, hk]

/-- The members that follow a draft go under their names. -/
theorem bind_takeAll? (hn : cols.names.Nodup) (ms : List (Quotation × Value)) (look : String → List Value) :
    (cols.draft? look).bind (cols.takeAll? · ms) =
      if ms.all (·.1.string?.isSome) then cols.draft? (fun name => look name ++ values ms name) else none := by
  induction ms generalizing look with
  | nil => simp [takeAll?, values]
  | cons m ms ih =>
    obtain ⟨k, v⟩ := m
    cases h : k.string? with
    | none => simp [takeAll?, h]
    | some key =>
      have hstep : (cols.takeAll? · ((k, v) :: ms)) =
          fun draft => (cols.take? key v draft).bind (cols.takeAll? · ms) := by
        funext draft
        rw [takeAll?, h]
        rfl
      rw [hstep, ← Option.bind_assoc, bind_take? hn, ih, append_values_cons h, List.all_cons, h]
      rfl

theorem bind_finish? (look : String → List Value) :
    (cols.draft? look).bind cols.finish? = cols.record? look := by
  induction cols with
  | nil => rfl
  | cons name decode default rest ih =>
    have hfield : field? (look name) decode default =
        (slot? (look name) decode).bind fun slot => slot.or default := by
      match look name with
      | [] => rfl
      | [v] =>
        show decode v = ((decode v).map some).bind _
        cases decode v <;> rfl
      | _ :: _ :: _ => rfl
    rw [draft?, record?, ← ih, hfield]
    cases slot? (look name) decode with
    | none => rfl
    | some slot =>
      rw [Option.bind_some, Option.bind_some]
      cases rest.draft? look with
      | none => cases slot.or default <;> rfl
      | some slots => rfl

/-- A record by the names of its fields is the draft of all members, finished. -/
theorem bind_takeAll?_finish? (hn : cols.names.Nodup) (ms : List (Quotation × Value)) :
    (cols.takeAll? cols.blank ms).bind cols.finish? = (Value.object ms).members?.bind cols.record? := by
  have h := bind_takeAll? hn ms fun _ => []
  rw [draft?_nil, Option.bind_some] at h
  rw [h, Value.members?]
  split
  · exact bind_finish? _
  · rfl

end Columns
end Soql.Json
