import HeaderChain.Json.Codec
import HeaderChain.Proofs.Json.Parser
import HeaderChain.Proofs.Text.Hex
import Mathlib.Data.List.Forall2
import Mathlib.Data.List.Nodup

/-!
# Records Read Back

Readers that undo the forms that values are written in.

A reader undoes a form if whatever is brought into the form has a written form and is read
as what it was. Of numbers, truth values and hashes this is shown one by one, and lists and
values that may be missing take it over from what they are made of.

A record is judged before its parts are taken. If its members are the declared parts in
their order, each of them is looked up under its own name, it is met for the first time, and
its test is the reader that undoes its form. So the judgement goes through, and it finds
what was written. The parts are kept in the opposite order, which does not matter to looking
them up.

## Main definitions

* `Json.Undoes`: A reader undoes a form.
* `Json.Fills`: A member stands for a declared part.

## Theorems

* `Json.Undoes.list`, `Json.Undoes.nullable`: Lists and values that may be missing.
* `Json.undoes_uint64`, `Json.undoes_int64`, `Hash.undoes`: Numbers and hashes.
* `Json.parts_ofMembers`: The judgement of a written record.
* `Json.Undoes.record`: The reader of a record undoes its form.
* `Json.readVariant_string`, `Json.readVariant_ofMembers`: Alternatives are told apart.
* `Json.Undoes.readText`: The whole way through the text.
-/

namespace HeaderChain

namespace Json

/-- A reader undoes a form: what is brought into it can be written, and is read as what it
    was. -/
structure Undoes {α : Type} (read : Reader α) (form : α → Json) : Prop where
  /-- The form can be written. -/
  written : ∀ a, (form a).Written
  /-- It is read as what it was made of. -/
  reads : ∀ a, read (form a) = .ok a

section Undoes

variable {α : Type} {read : Reader α} {form : α → Json}

/-- Then the text of the form is read as what it was made of. -/
theorem Undoes.readText (h : Undoes read form) (a : α) :
    Json.readText read (form a).render = .ok a := by
  rw [Json.readText, (h.written a).parse_render]
  simp only [h.reads, if_true]

theorem Undoes.list (h : Undoes read form) :
    Undoes (readList read) fun as => .ofList (as.map form) where
  written as := by
    refine .list fun item hitem => ?_
    rcases List.mem_map.mp hitem with ⟨a, _, rfl⟩
    exact h.written a
  reads as := by
    -- Item by item, since the reader of lists stops at the first fault.
    have hitems : readItemsWith read (as.map form) = .ok as := by
      induction as with
      | nil => rfl
      | cons a rest ih =>
          rw [List.map_cons, readItemsWith, h.reads, ih]
          rfl
    rw [ofList, readList, hitems]
    rfl

/-- A missing value is written as `null`, so that must not be the form of another one. -/
theorem Undoes.nullable (h : Undoes read form) (hnull : ∀ a, form a ≠ .null) :
    Undoes (Json.nullable read) (ofOption form) where
  written
    | none => .null
    | some a => h.written a
  reads
    | none => rfl
    | some a => by
      rw [ofOption, Json.nullable, h.reads]
      · rfl
      · exact hnull a

end Undoes

theorem readInteger_ok {name : String} {low high n : Int} (hlow : low ≤ n) (hhigh : n ≤ high) :
    readInteger name low high (.integer n) = .ok n := by
  rw [readInteger, if_pos ⟨hlow, hhigh⟩]

/-- The unsigned words, whatever their size. -/
theorem undoes_unsigned {α : Type} {name : String} {size : Nat} {toNat : α → Nat}
    {ofNat : Nat → α} (hsize : size ≤ UInt64.size) (hlt : ∀ a, toNat a < size)
    (hinverse : ∀ a, ofNat (toNat a) = a) :
    Undoes (fun j => (readInteger name 0 (size - 1) j).map fun n => ofNat n.toNat)
      fun a => .integer (toNat a) where
  written a := by
    have hmin : Int64.minValue.toInt ≤ 0 := by decide
    have ha := hlt a
    exact .integer (by omega) (by omega)
  reads a := by
    have ha := hlt a
    rw [readInteger_ok (by omega) (by omega), Except.map, Int.toNat_natCast, hinverse]

theorem undoes_uint8 : Undoes readUInt8 fun b => .integer b.toNat :=
  undoes_unsigned (by decide) UInt8.toNat_lt_size fun _ => UInt8.ofNat_toNat

theorem undoes_uint32 : Undoes readUInt32 ofUInt32 :=
  undoes_unsigned (by decide) UInt32.toNat_lt_size fun _ => UInt32.ofNat_toNat

theorem undoes_uint64 : Undoes readUInt64 ofUInt64 :=
  undoes_unsigned (by decide) UInt64.toNat_lt_size fun _ => UInt64.ofNat_toNat

theorem undoes_int64 : Undoes readInt64 ofInt64 where
  written n := by
    have hmax : Int64.maxValue.toInt < UInt64.size := by decide
    exact .integer n.minValue_le_toInt (Int.lt_of_le_of_lt n.toInt_le hmax)
  reads n := by
    rw [readInt64, ofInt64, readInteger_ok n.minValue_le_toInt n.toInt_le, Except.map,
      Int64.ofInt_toInt]

theorem undoes_bool : Undoes readBool .bool where
  written b := .bool b
  reads _ := rfl

theorem undoes_bytes : Undoes readBytes ofBytes :=
  undoes_uint8.list

end Json

theorem Hash.undoes {n : Nat} : Json.Undoes (@Hash.ofJson n) Hash.toJson where
  written hash := .string hash.toHex
  reads hash := by
    simp only [ofJson, toJson, Json.readString, hash.parse_toHex]

namespace Json

section Members

/-- A member stands for a declared part: it has its name and can be written, and its value
    passes the test. -/
structure Fills (m : String × Json) (f : Field) : Prop where
  /-- The names agree. -/
  name_eq : m.1 = f.name
  /-- The value can be written. -/
  written : m.2.Written
  /-- The value passes the test. -/
  passes : f.test m.2 = .ok ()

theorem Undoes.fills {α : Type} {read : Reader α} {form : α → Json} (h : Undoes read form)
    (name : String) (a : α) : Fills (name, form a) (field name read) where
  name_eq := rfl
  written := h.written a
  passes := by
    have htest : (read (form a)).map (fun _ => ()) = .ok () := by
      rw [h.reads]
      rfl
    exact htest

variable {fields : List Field} {members : List (String × Json)}

theorem find?_name (hnames : (fields.map Field.name).Nodup) {f : Field} (hf : f ∈ fields) :
    fields.find? (·.name == f.name) = some f := by
  cases hfind : fields.find? (·.name == f.name) with
  | none => exact absurd (beq_self_eq_true f.name) (List.find?_eq_none.mp hfind f hf)
  | some g =>
      have hname : (g.name == f.name) = true :=
        List.find?_some (p := fun g : Field => g.name == f.name) hfind
      rw [List.inj_on_of_nodup_map hnames (List.mem_of_find?_eq_some hfind) hf
        (beq_iff_eq.mp hname)]

/-- Members that fill declared parts, under names that they do not share with each other or
    with those already seen, pass the judgement one by one. -/
theorem memberParts_of_fills {seen : Parts}
    (hfills : ∀ m ∈ members, ∃ f, fields.find? (·.name == m.1) = some f ∧ Fills m f)
    (hnames : (members.map Prod.fst).Nodup) (hseen : ∀ m ∈ members, seen.lookup m.1 = none) :
    memberParts fields true seen (members.map fun (name, value) => (.string name, value))
      = .ok (members.reverse ++ seen) := by
  induction members generalizing seen with
  | nil => rfl
  | cons m rest ih =>
      rcases m with ⟨name, value⟩
      rcases hfills _ List.mem_cons_self with ⟨f, hfind, hfill⟩
      have hpasses : f.test value = .ok () := hfill.passes
      have hfresh : seen.lookup name = none := hseen _ List.mem_cons_self
      rw [List.map_cons, List.nodup_cons] at hnames
      rw [List.map_cons, memberParts]
      simp only [hfind, hfresh, hpasses, Option.isSome_none, Bool.false_eq_true, if_false]
      rw [ih (fun m hm => hfills m (List.mem_cons_of_mem _ hm)) hnames.2 fun m hm => ?_]
      · rw [List.reverse_cons, List.append_assoc]
        rfl
      · -- No other member has this name.
        have hne : m.1 ≠ name := fun heq => hnames.1 (List.mem_map.mpr ⟨m, hm, heq⟩)
        rw [List.lookup_cons, beq_eq_false_iff_ne.mpr hne]
        exact hseen m (List.mem_cons_of_mem _ hm)

theorem exists_fills (hfills : List.Forall₂ Fills members fields) {m : String × Json}
    (hm : m ∈ members) : ∃ f ∈ fields, Fills m f := by
  induction hfills with
  | nil => exact absurd hm List.not_mem_nil
  | @cons m' f members fields hfill _ ih =>
      rcases List.mem_cons.mp hm with rfl | hm
      · exact ⟨f, List.mem_cons_self, hfill⟩
      · rcases ih hm with ⟨g, hg, hfill⟩
        exact ⟨g, List.mem_cons_of_mem f hg, hfill⟩

theorem map_fst_of_fills (hfills : List.Forall₂ Fills members fields) :
    members.map Prod.fst = fields.map Field.name := by
  induction hfills with
  | nil => rfl
  | cons hfill _ ih => rw [List.map_cons, List.map_cons, hfill.name_eq, ih]

theorem written_ofMembers (hvalues : ∀ m ∈ members, m.2.Written) :
    (ofMembers members).Written := by
  refine .object (fun m hm => ?_) fun m hm => ?_
  · rcases List.mem_map.mp hm with ⟨⟨name, value⟩, _, rfl⟩
    exact ⟨name, rfl⟩
  · rcases List.mem_map.mp hm with ⟨⟨name, value⟩, hmember, rfl⟩
    exact hvalues _ hmember

/-- A record whose members fill the declared parts in their order passes the judgement. -/
theorem parts_ofMembers (hfills : List.Forall₂ Fills members fields)
    (hnames : (fields.map Field.name).Nodup) (record : String) :
    parts record fields (ofMembers members) = .ok members.reverse := by
  -- The names are distinct, so a member is looked up under the part that it stands for.
  have hfound : ∀ m ∈ members, ∃ f, fields.find? (·.name == m.1) = some f ∧ Fills m f := by
    intro m hm
    rcases exists_fills hfills hm with ⟨f, hf, hfill⟩
    refine ⟨f, ?_, hfill⟩
    rw [hfill.name_eq]
    exact find?_name hnames hf
  rw [← map_fst_of_fills hfills] at hnames
  rw [ofMembers, parts, memberParts_of_fills hfound hnames fun _ _ => rfl, List.append_nil]

end Members

/-- A reader that judges a record and then takes its parts undoes a form with these parts. -/
theorem Undoes.record {ρ : Type} {name : String} {fields : List Field}
    {members : ρ → List (String × Json)} {build : Parts → Except Fault ρ}
    (hfills : ∀ r, List.Forall₂ Fills (members r) fields) (hnames : (fields.map Field.name).Nodup)
    (hbuild : ∀ r, build (members r).reverse = .ok r) :
    Undoes (fun j => (parts name fields j).bind build) fun r => ofMembers (members r) where
  written r := by
    refine written_ofMembers fun m hm => ?_
    rcases exists_fills (hfills r) hm with ⟨_, _, hfill⟩
    exact hfill.written
  reads r := by
    rw [parts_ofMembers (hfills r) hnames]
    exact hbuild r

section Taking

variable {α ρ : Type} {found : Parts} {name : String} {r : ρ}

/-- A part that is found in its form is taken as what it was. -/
theorem Undoes.bind_required {read : Reader α} {form : α → Json} (h : Undoes read form) (a : α)
    (hfound : found.lookup name = some (form a)) {next : α → Except Fault ρ}
    (hnext : next a = .ok r) : (required found name read).bind next = .ok r := by
  rw [required, hfound, ← hnext]
  simp only [h.reads]
  rfl

/-- So is one that may be left out, but is there. -/
theorem Undoes.bind_optional {read : Reader (Option α)} {form : Option α → Json}
    (h : Undoes read form) (a : Option α) (hfound : found.lookup name = some (form a))
    {next : Option α → Except Fault ρ} (hnext : next a = .ok r) :
    (optional found name read).bind next = .ok r := by
  rw [optional, hfound, ← hnext]
  simp only [h.reads]
  rfl

end Taking

section Variants

variable {α : Type} {variants : List String} {bare : String → Except Fault α}
  {carrying : String → Reader α} {name : String} {a : α}

/-- An alternative that is written by its name. -/
theorem readVariant_string (hname : name ∈ variants) (hbare : bare name = .ok a) :
    readVariant variants bare carrying (.string name) = .ok a := by
  rw [readVariant, if_pos (List.contains_iff_mem.mpr hname), hbare]

theorem written_variant {value : Json} (name : String) (h : value.Written) :
    (ofMembers [(name, value)]).Written := by
  refine written_ofMembers fun m hm => ?_
  rw [List.mem_singleton.mp hm]
  exact h

/-- An alternative that is written by its name and what it carries. -/
theorem readVariant_ofMembers {value : Json} (hname : name ∈ variants)
    (hcarrying : carrying name value = .ok a) :
    readVariant variants bare carrying (ofMembers [(name, value)]) = .ok a := by
  rw [ofMembers, List.map_cons, readVariant, if_pos (List.contains_iff_mem.mpr hname), hcarrying]
  rfl

end Variants

end Json

end HeaderChain
