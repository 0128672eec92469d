import Mathlib.Data.List.Basic
import Workbench.Proofs.Json.Faithful

/-!
# What has been read can be written without going deeper

A value that was read from a text need not be written as that text was: defaults
are filled in, arrays become objects, fields nobody knows are gone. But it is no
deeper, apart from the few brackets that defaults bring along. So a codec has a
bound (`Codec.Bounded`): whatever is read, its document is no deeper than the
mode allows or than the bound, whichever is more.
-/

namespace Workbench

namespace Codec

variable {α : Type} {codec : Codec α} {n : Nat}

def Bounded (codec : Codec α) (n : Nat) : Prop :=
  ∀ {mode : Mode} {tree : Tree} {a : α} {m : Nat},
    codec.read mode tree = .ok a →
    mode.Bounds tree.nesting m → n ≤ m → (codec.write a).nesting ≤ m

theorem Bounded.mono {more : Nat} (h : codec.Bounded n) (hmore : n ≤ more) :
    codec.Bounded more :=
  fun hread hbounds hle => h hread hbounds (Nat.le_trans hmore hle)

theorem bounded_of_le (h : ∀ a, (codec.write a).nesting ≤ n) :
    codec.Bounded n :=
  fun _ _ hle => Nat.le_trans (h _) hle

theorem freeForm_bounded : freeForm.Bounded 0 := by
  intro mode tree a m hread hbounds _
  obtain ⟨document, hdocument, h⟩ := bind_eq_ok_iff.1 hread
  cases h
  exact Nat.le_trans document.nesting_sort_le
    (tree.nesting_readWhole hdocument hbounds)

theorem option_bounded (h : codec.Bounded n) : codec.option.Bounded n := by
  intro mode tree a m hread hbounds hle
  by_cases hnull : ∃ spelling, tree = .word .null spelling
  · obtain ⟨spelling, rfl⟩ := hnull
    obtain ⟨_, _, hnone⟩ := bind_eq_ok_iff.1 hread
    cases hnone
    exact Nat.zero_le m
  · rw [read_option_of_ne fun spelling heq => hnull ⟨spelling, heq⟩] at hread
    obtain ⟨a, ha, hsome⟩ := bind_eq_ok_iff.1 hread
    cases hsome
    exact h ha hbounds hle

theorem nesting_readItems (h : codec.Bounded n) : (items : Items) →
    ∀ {mode : Mode} {as : List α} {m : Nat},
      codec.readItems mode items = .ok as →
      mode.Bounds (Tree.nestingOfItems items) m → n ≤ m →
        Json.nestingOfItems (as.map codec.write) ≤ m
  | .stop _, _, _, _, hread, _, _ => by
      obtain ⟨_, _, hnil⟩ := bind_eq_ok_iff.1 hread
      cases hnil
      exact Nat.zero_le _
  | .more item rest, _, _, _, hread, hbounds, hle => by
      obtain ⟨a, ha, hread⟩ := bind_eq_ok_iff.1 hread
      obtain ⟨as, has, hcons⟩ := bind_eq_ok_iff.1 hread
      cases hcons
      exact Nat.max_le.2 ⟨h ha (hbounds.mono (Nat.le_max_left ..)) hle,
        nesting_readItems h rest has (hbounds.mono (Nat.le_max_right ..)) hle⟩

theorem list_bounded (h : codec.Bounded n) : codec.list.Bounded (n + 1) := by
  intro mode tree as m hread hbounds hle
  cases tree with
  | array items =>
      obtain ⟨inner, henter, hread⟩ := bind_eq_ok_iff.1 hread
      obtain ⟨m, rfl, hinner⟩ := hbounds.enter henter
      exact Nat.succ_le_succ
        (nesting_readItems h items hread hinner (Nat.le_of_succ_le_succ hle))
  | _ => cases hread

end Codec

/-! ## Records -/

namespace Fields

/-- The codecs of the fields are bounded, and so are the values taken where none
is given. -/
def Bounded {types : List Type} (n : Nat) : Fields types → Prop
  | nil => True
  | cons field rest =>
      (field.codec.Bounded n ∧
        (∀ a, field.absent = some a → (field.codec.write a).nesting ≤ n) ∧
        ∀ a, field.beyond = some a → (field.codec.write a).nesting ≤ n) ∧
          rest.Bounded n

/-- The values that have been given are so deep at most. -/
def Within {types : List Type} (m : Nat) : Fields types → Slots types → Prop
  | nil, _ => True
  | cons field rest, (slot, slots) =>
      (∀ a, slot = some a → (field.codec.write a).nesting ≤ m) ∧
        rest.Within m slots

variable {types : List Type} {fields : Fields types} {mode : Mode} {n m : Nat}

theorem within_noSlots (fields : Fields types) (m : Nat) :
    fields.Within m fields.noSlots := by
  induction fields with
  | nil => trivial
  | cons field rest ih => exact ⟨nofun, ih⟩

theorem within_fill {key : String} {slots filled : Slots types} {tree : Tree}
    {fill : Mode → Tree → Except Fault (Slots types)}
    (hfields : fields.Bounded n) (hoffer : fields.offer key slots = .free fill)
    (hfill : fill mode tree = .ok filled) (hslots : fields.Within m slots)
    (hbounds : mode.Bounds tree.nesting m) (hle : n ≤ m) :
    fields.Within m filled := by
  induction fields with
  | nil => cases hoffer
  | cons field rest ih =>
      obtain ⟨slot, slots⟩ := slots
      obtain ⟨⟨hcodec, -, -⟩, hrest⟩ := hfields
      obtain ⟨hslot, hlater⟩ := hslots
      simp only [offer] at hoffer
      split at hoffer
      · cases slot with
        | some a => cases hoffer
        | none =>
            cases hoffer
            obtain ⟨a, ha, hfilled⟩ := bind_eq_ok_iff.1 hfill
            cases hfilled
            refine ⟨fun b hb => ?_, hlater⟩
            cases hb
            exact hcodec ha hbounds hle
      · cases hinner : rest.offer key slots with
        | taken | unknown =>
            rw [hinner] at hoffer
            cases hoffer
        | free inner =>
            rw [hinner] at hoffer
            cases hoffer
            obtain ⟨next, hnext, hfilled⟩ := bind_eq_ok_iff.1 hfill
            cases hfilled
            exact ⟨hslot, ih hrest hinner hnext hlater⟩

theorem within_readMembers (hfields : fields.Bounded n) : (members : Members) →
    ∀ {slots filled : Slots types},
      fields.readMembers mode slots members = .ok filled →
      fields.Within m slots →
      mode.Bounds (Tree.nestingOfMembers members) m → n ≤ m →
        fields.Within m filled
  | .stop _, _, _, hread, hslots, _, _ => by
      obtain ⟨_, _, hstop⟩ := bind_eq_ok_iff.1 hread
      cases hstop
      exact hslots
  | .lone _ _, slots, _, hread, _, _, _ => by
      obtain ⟨name, _, hlone⟩ := bind_eq_ok_iff.1 hread
      split at hlone <;> cases hlone
  | .more _ value rest, slots, _, hread, hslots, hbounds, hle => by
      obtain ⟨name, _, hread⟩ := bind_eq_ok_iff.1 hread
      have hrest := hbounds.mono
        (Nat.le_max_right value.nesting (Tree.nestingOfMembers rest))
      split at hread
      · cases hread
      · obtain ⟨_, _, hread⟩ := bind_eq_ok_iff.1 hread
        exact within_readMembers hfields rest hread hslots hrest hle
      · next fill hoffer =>
          obtain ⟨next, hnext, hread⟩ := bind_eq_ok_iff.1 hread
          refine within_readMembers hfields rest hread ?_ hrest hle
          exact within_fill hfields hoffer hnext hslots
            (hbounds.mono (Nat.le_max_left ..)) hle

theorem nesting_complete {slots : Slots types} {row : Row types}
    (hfields : fields.Bounded n) (hread : fields.complete slots = .ok row)
    (hslots : fields.Within m slots) (hle : n ≤ m) :
    Json.nestingOfEntries (fields.entries row) ≤ m := by
  induction fields with
  | nil => exact Nat.zero_le m
  | cons field rest ih =>
      obtain ⟨slot, slots⟩ := slots
      obtain ⟨⟨-, habsent, -⟩, hrest⟩ := hfields
      obtain ⟨hslot, hlater⟩ := hslots
      rw [complete] at hread
      split at hread
      · next a ha =>
          obtain ⟨row, hrow, hcons⟩ := bind_eq_ok_iff.1 hread
          cases hcons
          refine Nat.max_le.2 ⟨?_, ih hrest hrow hlater⟩
          cases slot with
          | some b =>
              cases ha
              exact hslot a rfl
          | none => exact Nat.le_trans (habsent a ha) hle
      · cases hread

theorem nesting_readItems {wanted : String} {index : Nat} {items left : Items}
    {row : Row types} (hfields : fields.Bounded n)
    (hread : fields.readItems wanted mode index items = .ok (row, left))
    (hbounds : mode.Bounds (Tree.nestingOfItems items) m) (hle : n ≤ m) :
    Json.nestingOfEntries (fields.entries row) ≤ m := by
  induction fields generalizing index items left with
  | nil => exact Nat.zero_le m
  | cons field rest ih =>
      obtain ⟨⟨hcodec, -, hbeyond⟩, hrest⟩ := hfields
      cases items with
      | more item items =>
          obtain ⟨a, ha, hread⟩ := bind_eq_ok_iff.1 hread
          obtain ⟨⟨row, left⟩, hrow, hcons⟩ := bind_eq_ok_iff.1 hread
          cases hcons
          exact Nat.max_le.2 ⟨hcodec ha (hbounds.mono (Nat.le_max_left ..)) hle,
            ih hrest hrow (hbounds.mono (Nat.le_max_right ..))⟩
      | stop stop =>
          obtain ⟨_, _, hread⟩ := bind_eq_ok_iff.1 hread
          dsimp only at hread
          split at hread
          · next a ha =>
              obtain ⟨⟨row, left⟩, hrow, hcons⟩ := bind_eq_ok_iff.1 hread
              cases hcons
              exact Nat.max_le.2 ⟨Nat.le_trans (hbeyond a ha) hle,
                ih hrest hrow hbounds⟩
          · cases hread

end Fields

namespace Record

variable {ρ : Type} {record : Record ρ} {mode : Mode} {value : ρ} {n m : Nat}

structure Bounded (record : Record ρ) (n : Nat) : Prop where
  fields : record.fields.Bounded n
  toRow_ofRow : ∀ row, record.toRow (record.ofRow row) = row

theorem Bounded.nesting_readMembers {members : Members} (h : record.Bounded n)
    (hread : record.readMembers mode members = .ok value)
    (hbounds : mode.Bounds (Tree.nestingOfMembers members) m) (hle : n ≤ m) :
    Json.nestingOfEntries (record.entries value) ≤ m := by
  obtain ⟨slots, hslots, hread⟩ := bind_eq_ok_iff.1 hread
  obtain ⟨row, hrow, hvalue⟩ := bind_eq_ok_iff.1 hread
  cases hvalue
  rw [entries, h.toRow_ofRow]
  refine Fields.nesting_complete h.fields hrow ?_ hle
  exact Fields.within_readMembers h.fields members hslots
    (Fields.within_noSlots _ _) hbounds hle

theorem Bounded.nesting_readItems {items : Items} (h : record.Bounded n)
    (hread : record.readItems mode items = .ok value)
    (hbounds : mode.Bounds (Tree.nestingOfItems items) m) (hle : n ≤ m) :
    Json.nestingOfEntries (record.entries value) ≤ m := by
  obtain ⟨⟨row, rest⟩, hrow, hread⟩ := bind_eq_ok_iff.1 hread
  dsimp only at hread
  split at hread
  · cases hread
  · cases hread
    rw [entries, h.toRow_ofRow]
    exact Fields.nesting_readItems h.fields hrow hbounds hle

theorem Bounded.codec (h : record.Bounded n) :
    record.codec.Bounded (n + 1) := by
  intro mode tree value m hread hbounds hle
  cases tree with
  | object members =>
      obtain ⟨inner, henter, hread⟩ := bind_eq_ok_iff.1 hread
      obtain ⟨m, rfl, hinner⟩ := hbounds.enter henter
      exact Nat.succ_le_succ
        (h.nesting_readMembers hread hinner (Nat.le_of_succ_le_succ hle))
  | array items =>
      obtain ⟨inner, henter, hread⟩ := bind_eq_ok_iff.1 hread
      obtain ⟨m, rfl, hinner⟩ := hbounds.enter henter
      exact Nat.succ_le_succ
        (h.nesting_readItems hread hinner (Nat.le_of_succ_le_succ hle))
  | _ => cases hread

end Record

/-! ## Tagged records -/

namespace Choice

variable {α : Type} {choice : Choice α} {reader : RecordReader α}
  {mode : Mode} {n m : Nat}

/-- What the reader reads from memory is no deeper than what it reads it from,
or than the bound. -/
structure ReadsWithin (choice : Choice α) (n : Nat) (reader : RecordReader α) :
    Prop where
  members : ∀ {members : Members} {a : α} {m : Nat},
    reader.readMembers .buffered members = .ok a →
    Tree.nestingOfMembers members ≤ m → n ≤ m →
    Json.nestingOfEntries (choice.entries a).2 ≤ m
  items : ∀ {items : Items} {a : α} {m : Nat},
    reader.readItems .buffered items = .ok a →
    Tree.nestingOfItems items ≤ m → n ≤ m →
    Json.nestingOfEntries (choice.entries a).2 ≤ m

theorem readsWithin_map {ρ : Type} {record : Record ρ} {make : ρ → α}
    (h : record.Bounded n)
    (hentries : ∀ value,
      (choice.entries (make value)).2 = record.entries value) :
    choice.ReadsWithin n (record.reader.map make) where
  members hread hbounds hle := by
    obtain ⟨value, hvalue, hmake⟩ := bind_eq_ok_iff.1 hread
    cases hmake
    rw [hentries]
    exact h.nesting_readMembers hvalue hbounds hle
  items hread hbounds hle := by
    obtain ⟨value, hvalue, hmake⟩ := bind_eq_ok_iff.1 hread
    cases hmake
    rw [hentries]
    exact h.nesting_readItems hvalue hbounds hle

def Bounded (choice : Choice α) (n : Nat) : Prop :=
  choice.cases.Forall fun case => choice.ReadsWithin n case.2

theorem Bounded.readsWithin_of_readTag {tree : Tree} (h : choice.Bounded n)
    (hread : choice.readTag tree = .ok reader) :
    choice.ReadsWithin n reader := by
  cases tree with
  | string lexeme =>
      obtain ⟨tag, _, hfind⟩ := bind_eq_ok_iff.1 hread
      rw [find] at hfind
      split at hfind
      · next found hlookup =>
          cases hfind
          obtain ⟨before, after, hcases, -⟩ := List.lookup_eq_some_iff.1 hlookup
          refine List.forall_iff_forall_mem.1 h (tag, reader) ?_
          rw [hcases]
          exact List.mem_append_right before (List.mem_cons_self ..)
      · cases hfind
  | _ => cases hread

theorem Bounded.gather (h : choice.Bounded n) : (members : Members) →
    ∀ {before after : Option (RecordReader α)} {others : List (String × Json)},
      choice.gather mode before members = .ok (after, others) →
      (∀ reader, before = some reader → choice.ReadsWithin n reader) →
      mode.Bounds (Tree.nestingOfMembers members) m →
      (∀ reader, after = some reader → choice.ReadsWithin n reader) ∧
        Json.nestingOfEntries others ≤ m
  | .stop _, _, _, _, hread, hbefore, _ => by
      obtain ⟨_, _, hstop⟩ := bind_eq_ok_iff.1 hread
      cases hstop
      exact ⟨hbefore, Nat.zero_le m⟩
  | .lone _ _, _, _, _, hread, _, _ => by
      obtain ⟨_, _, hlone⟩ := bind_eq_ok_iff.1 hread
      split at hlone <;> cases hlone
  | .more _ value rest, _, _, _, hread, hbefore, hbounds => by
      obtain ⟨name, _, hread⟩ := bind_eq_ok_iff.1 hread
      have hrest := hbounds.mono
        (Nat.le_max_right value.nesting (Tree.nestingOfMembers rest))
      split at hread
      · split at hread
        · cases hread
        · obtain ⟨reader, hreader, hread⟩ := bind_eq_ok_iff.1 hread
          refine Bounded.gather h rest hread (fun found hfound => ?_) hrest
          cases hfound
          exact h.readsWithin_of_readTag hreader
      · obtain ⟨document, hdocument, hread⟩ := bind_eq_ok_iff.1 hread
        obtain ⟨⟨found, others⟩, hothers, hcons⟩ := bind_eq_ok_iff.1 hread
        cases hcons
        obtain ⟨hfound, hle⟩ := Bounded.gather h rest hothers hbefore hrest
        refine ⟨hfound, Nat.max_le.2 ⟨?_, hle⟩⟩
        exact value.nesting_readWhole hdocument
          (hbounds.mono (Nat.le_max_left ..))

theorem nesting_write (choice : Choice α) (a : α) :
    (choice.write a).nesting = Json.nestingOfEntries (choice.entries a).2 + 1 :=
  congrArg (· + 1) (Nat.zero_max _)

theorem Bounded.codec (h : choice.Bounded n) :
    choice.codec.Bounded (n + 1) := by
  intro mode tree a m hread hbounds hle
  cases tree with
  | object members =>
      obtain ⟨inner, henter, hread⟩ := bind_eq_ok_iff.1 hread
      obtain ⟨m, rfl, hinner⟩ := hbounds.enter henter
      obtain ⟨⟨found, others⟩, hgather, hread⟩ := bind_eq_ok_iff.1 hread
      obtain ⟨hfound, hothers⟩ := h.gather members hgather nofun hinner
      cases found with
      | none => cases hread
      | some reader =>
          have hwithin := hfound reader rfl
          refine Nat.le_trans (Nat.le_of_eq (choice.nesting_write a))
            (Nat.succ_le_succ ?_)
          rw [← Tree.nesting_ofEntries] at hothers
          exact hwithin.members hread hothers (Nat.le_of_succ_le_succ hle)
  | array items =>
      obtain ⟨inner, henter, hread⟩ := bind_eq_ok_iff.1 hread
      obtain ⟨m, rfl, hinner⟩ := hbounds.enter henter
      cases items with
      | stop stop =>
          obtain ⟨_, _, hread⟩ := bind_eq_ok_iff.1 hread
          cases hread
      | more tag rest =>
          obtain ⟨reader, hreader, hread⟩ := bind_eq_ok_iff.1 hread
          obtain ⟨others, hothers, hread⟩ := bind_eq_ok_iff.1 hread
          have hwithin := h.readsWithin_of_readTag hreader
          have hdeep := Tree.nesting_readItems rest hothers
            (hinner.mono (Nat.le_max_right ..))
          refine Nat.le_trans (Nat.le_of_eq (choice.nesting_write a))
            (Nat.succ_le_succ ?_)
          rw [← Tree.nesting_ofItems] at hdeep
          exact hwithin.items hread hdeep (Nat.le_of_succ_le_succ hle)
  | _ => cases hread

end Choice

end Workbench
