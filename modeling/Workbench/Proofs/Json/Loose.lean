import Workbench.Proofs.Json.Regular

/-!
# Documents that a record is read from as well

A record is written with all its fields in the order of declaration, and read
from many other objects: the fields may come in any order, fields that nobody
declared may stand among them, and a field may be missing if its value is the
one that is taken in its place. What may differ in a document is told here from
document to document, without a reader (`Leeway`, `LooseRecord`, `LooseTagged`);
a codec is lenient if it reads the written value from every document that
differs no more than that.

Fields are found by their names. So of the entries that are given the one of the
first field can be taken out from wherever it stands, or there is none because
it has been left out (`Admits.cases_cons`), and the others are read by the other
fields as if neither were there (`readMembers_insert`). The tag of a tagged
record is taken out in the same way before any field is looked at.
-/

namespace Workbench

/-- How much a document may differ in a field: how its value may be written, and
the value that need not be given. -/
structure Leeway where
  name : String
  alike : Json → Json → Prop := Eq
  spare : Option Json := none

/-- What is kept of entries: each as it may be written, or not at all if it need
not be given. -/
inductive Leeway.Keeps :
    List Leeway → (written kept : List (String × Json)) → Prop
  | nil : Keeps [] [] []
  | keep {leeway : Leeway} {leeways : List Leeway} {value document : Json}
      {written kept : List (String × Json)} (h : leeway.alike value document)
      (rest : Keeps leeways written kept) :
      Keeps (leeway :: leeways) ((leeway.name, value) :: written)
        ((leeway.name, document) :: kept)
  | leave {leeway : Leeway} {leeways : List Leeway} {value : Json}
      {written kept : List (String × Json)} (h : leeway.spare = some value)
      (rest : Keeps leeways written kept) :
      Keeps (leeway :: leeways) ((leeway.name, value) :: written) kept

/-- The entries that are given are, in any order, what is kept of the written
ones and others, whose keys are those of no field. -/
def Leeway.Admits (leeways : List Leeway)
    (written given : List (String × Json)) : Prop :=
  ∃ kept others,
    Keeps leeways written kept ∧ (∀ e ∈ others, e.1 ∉ leeways.map (·.name)) ∧
    given.Perm (kept ++ others)

namespace Json

/-- Arrays whose items are alike one by one. -/
inductive LooseItems (alike : Json → Json → Prop) : Json → Json → Prop
  | intro {written given : List Json} (h : List.Forall₂ alike written given) :
      LooseItems alike (.array written) (.array given)

/-- A record as it is written and as it may be given. -/
inductive LooseRecord (leeways : List Leeway) : Json → Json → Prop
  | intro {written given : List (String × Json)}
      (h : Leeway.Admits leeways written given) :
      LooseRecord leeways (.object written) (.object given)

/-- A record with a tag that decides on its fields; the tag may stand anywhere
among them. -/
inductive LooseTagged (tagName : String) (cases : List (String × List Leeway)) :
    Json → Json → Prop
  | intro {tag : String} {leeways : List Leeway}
      {written given : List (String × Json)}
      (hcase : cases.lookup tag = some leeways)
      (h : Leeway.Admits ({ name := tagName } :: leeways)
        ((tagName, .string tag) :: written) given) :
      LooseTagged tagName cases (.object ((tagName, .string tag) :: written))
        (.object given)

end Json

namespace Codec

variable {α : Type} {codec : Codec α} {alike : Json → Json → Prop}

/-- The codec reads the value from every document that is alike to the written
one, where there is room for it; and the written one is among these. -/
structure LenientAt (codec : Codec α) (alike : Json → Json → Prop) (a : α) :
    Prop where
  written : alike (codec.write a) (codec.write a)
  read : ∀ {mode : Mode} {document : Json}, alike (codec.write a) document →
    mode.Holds document.nesting → codec.read mode (.ofJson document) = .ok a

def Lenient (codec : Codec α) (alike : Json → Json → Prop) : Prop :=
  ∀ a, codec.LenientAt alike a

theorem Faithful.lenient (h : codec.Faithful) : codec.Lenient Eq := by
  refine fun a => ⟨rfl, fun halike hroom => ?_⟩
  subst halike
  exact h hroom

/-- Different values are written differently. -/
theorem Faithful.injective (h : codec.Faithful) {a b : α}
    (hab : codec.write a = codec.write b) : a = b := by
  have ha : codec.read .document (.ofJson (codec.write a)) = .ok a := h trivial
  have hb : codec.read .document (.ofJson (codec.write b)) = .ok b := h trivial
  exact Except.ok.inj (ha.symm.trans (hab ▸ hb))

theorem Lenient.readItems (h : codec.Lenient alike) {mode : Mode} {as : List α}
    {given : List Json} (halike : List.Forall₂ alike (as.map codec.write) given)
    (hroom : mode.Holds (Json.nestingOfItems given)) :
    codec.readItems mode (Tree.ofItems given) = .ok as := by
  induction as generalizing given with
  | nil =>
      cases halike
      rfl
  | cons a as ih =>
      cases halike with
      | cons ha has =>
          obtain ⟨hfirst, hrest⟩ := Mode.holds_max_iff.1 hroom
          exact bind_eq_ok_iff.2
            ⟨a, (h a).read ha hfirst, bind_eq_ok_iff.2 ⟨as, ih has hrest, rfl⟩⟩

theorem Lenient.list (h : codec.Lenient alike) :
    codec.list.Lenient (Json.LooseItems alike) := by
  refine fun as => ⟨.intro ?_, fun halike hroom => ?_⟩
  · exact List.forall₂_same.2 (List.forall_mem_map.2 fun a _ => (h a).written)
  · obtain ⟨hitems⟩ := halike
    obtain ⟨inner, henter, hinner⟩ := Mode.exists_enter hroom
    exact bind_eq_ok_iff.2 ⟨inner, henter, h.readItems hitems hinner⟩

end Codec

/-! ## Entries in any order -/

namespace Tree

mutual

/-- Whatever a document holds can be passed over. -/
theorem skip_ofJson : (document : Json) → skip (ofJson document) = .ok ()
  | .null | .bool _ | .number _ | .string _ => rfl
  | .array items => skipItems_ofItems items
  | .object entries => skipMembers_ofEntries entries

theorem skipItems_ofItems :
    (items : List Json) → skipItems (ofItems items) = .ok ()
  | [] => rfl
  | item :: rest => by
      rw [ofItems, skipItems, skip_ofJson item]
      exact skipItems_ofItems rest

theorem skipMembers_ofEntries : (entries : List (String × Json)) →
    skipMembers (ofEntries entries) = .ok ()
  | [] => rfl
  | (key, value) :: rest => by
      rw [ofEntries, skipMembers, skip_ofJson value]
      exact skipMembers_ofEntries rest

end

end Tree

/-- There is room for entries if there is room for each. -/
theorem Mode.holds_nestingOfEntries_iff {mode : Mode}
    {entries : List (String × Json)} :
    mode.Holds (Json.nestingOfEntries entries) ↔
      ∀ e ∈ entries, mode.Holds e.2.nesting := by
  induction entries with
  | nil =>
      refine iff_of_true ?_ (List.forall_mem_nil _)
      cases mode with
      | text room => exact Nat.zero_le room
      | document | buffered => trivial
  | cons e entries ih =>
      obtain ⟨key, value⟩ := e
      rw [Json.nestingOfEntries, Mode.holds_max_iff, ih, List.forall_mem_cons]

theorem Leeway.Keeps.mem_names {leeways : List Leeway}
    {written kept : List (String × Json)} (h : Keeps leeways written kept) :
    ∀ e ∈ kept, e.1 ∈ leeways.map (·.name) := by
  induction h with
  | nil => exact List.forall_mem_nil _
  | keep _ _ ih =>
      refine List.forall_mem_cons.2 ⟨List.mem_cons_self .., fun e he => ?_⟩
      exact List.mem_cons_of_mem _ (ih e he)
  | leave _ _ ih => exact fun e he => List.mem_cons_of_mem _ (ih e he)

/-- With nothing added and in the order of declaration. -/
theorem Leeway.Keeps.admits {leeways : List Leeway}
    {written kept : List (String × Json)} (h : Keeps leeways written kept) :
    Admits leeways written kept :=
  ⟨kept, [], h, List.forall_mem_nil _, .of_eq (List.append_nil kept).symm⟩

/-- The entry of the first field stands somewhere among the given ones, and
nowhere else, or it has been left out; either way the other entries are admitted
by the other fields. -/
theorem Leeway.Admits.cases_cons {leeway : Leeway} {leeways : List Leeway}
    {key : String} {value : Json} {written given : List (String × Json)}
    (h : Admits (leeway :: leeways) ((key, value) :: written) given)
    (hname : leeway.name ∉ leeways.map (·.name)) :
    (∃ document before after, leeway.alike value document ∧
      given = before ++ (leeway.name, document) :: after ∧
      (∀ e ∈ before ++ after, e.1 ≠ leeway.name) ∧
      Admits leeways written (before ++ after)) ∨
    (leeway.spare = some value ∧ (∀ e ∈ given, e.1 ≠ leeway.name) ∧
      Admits leeways written given) := by
  obtain ⟨kept, others, hkept, hothers, hperm⟩ := h
  have hforeign : ∀ e ∈ others,
      e.1 ≠ leeway.name ∧ e.1 ∉ leeways.map (·.name) := by
    intro e he
    have hnot := hothers e he
    rw [List.map_cons, List.mem_cons, not_or] at hnot
    exact hnot
  have hbut : ∀ {kept : List (String × Json)}, Keeps leeways written kept →
      ∀ e ∈ kept ++ others, e.1 ≠ leeway.name := by
    intro kept hkept e he heq
    rcases List.mem_append.1 he with he | he
    · exact hname (heq ▸ hkept.mem_names e he)
    · exact (hforeign e he).1 heq
  cases hkept with
  | @keep _ _ _ document _ kept halike hkept =>
      obtain ⟨before, after, rfl⟩ :=
        List.append_of_mem (hperm.mem_iff.2 (List.mem_cons_self ..))
      have hrest : (before ++ after).Perm (kept ++ others) :=
        (List.perm_middle.symm.trans hperm).cons_inv
      exact .inl ⟨document, before, after, halike, rfl,
        fun e he => hbut hkept e (hrest.mem_iff.1 he), kept, others, hkept,
        fun e he => (hforeign e he).2, hrest⟩
  | leave hleft hkept =>
      exact .inr ⟨hleft, fun e he => hbut hkept e (hperm.mem_iff.1 he), kept,
        others, hkept, fun e he => (hforeign e he).2, hperm⟩

/-- The fields let a document differ as told. -/
inductive Fields.Lenient :
    {types : List Type} → Fields types → List Leeway → Prop
  | nil : Lenient .nil []
  | cons {α : Type} {types : List Type} {field : Field α} {rest : Fields types}
      {leeway : Leeway} {leeways : List Leeway}
      (hname : field.name = leeway.name)
      (hcodec : field.codec.Lenient leeway.alike)
      (hspare : ∀ a,
        leeway.spare = some (field.codec.write a) → field.absent = some a)
      (hrest : rest.Lenient leeways) :
        Lenient (.cons field rest) (leeway :: leeways)

namespace Fields

variable {α : Type} {types : List Type} {fields : Fields types}
  {leeways : List Leeway} {mode : Mode} {given : List (String × Json)}

theorem Lenient.names_eq (h : fields.Lenient leeways) :
    fields.names = leeways.map (·.name) := by
  induction h with
  | nil => rfl
  | cons hname _ _ _ ih => exact congrArg₂ _ hname ih

theorem Lenient.keeps_entries (h : fields.Lenient leeways) (row : Row types) :
    Leeway.Keeps leeways (fields.entries row) (fields.entries row) := by
  induction h with
  | nil => exact .nil
  | cons hname hcodec _ _ ih =>
      obtain ⟨a, row⟩ := row
      rw [entries, hname]
      exact .keep (hcodec a).written (ih row)

/-- A field that has to be given. -/
theorem Lenient.required {name : String} {codec : Codec α}
    {alike : Json → Json → Prop} (hcodec : codec.Lenient alike)
    (hrest : fields.Lenient leeways) :
    (Fields.cons (.required name codec) fields).Lenient
      ({ name, alike } :: leeways) :=
  .cons rfl hcodec nofun hrest

/-- A field that need not be given if it has the value that is written like
this. -/
theorem Lenient.default {name : String} {codec : Codec α}
    {alike : Json → Json → Prop} {value : α} {spare : Json}
    (hspare : codec.write value = spare) (hfaithful : codec.Faithful)
    (hcodec : codec.Lenient alike) (hrest : fields.Lenient leeways) :
    (Fields.cons (.default name codec value) fields).Lenient
      ({ name, alike, spare := some spare } :: leeways) := by
  refine .cons rfl hcodec (fun a ha => ?_) hrest
  exact congrArg some (hfaithful.injective (hspare.trans (Option.some.inj ha)))

theorem Lenient.exact {name : String} {codec : Codec α} (h : codec.Faithful)
    (hrest : fields.Lenient leeways) :
    (Fields.cons (.required name codec) fields).Lenient ({ name } :: leeways) :=
  .required h.lenient hrest

theorem Lenient.spared {name : String} {codec : Codec α} {value : α}
    {spare : Json} (hspare : codec.write value = spare) (h : codec.Faithful)
    (hrest : fields.Lenient leeways) :
    (Fields.cons (.default name codec value) fields).Lenient
      ({ name, spare := some spare } :: leeways) :=
  .default hspare h h.lenient hrest

/-- Entries that belong to no field are passed over. -/
theorem readMembers_nil (given : List (String × Json)) :
    nil.readMembers mode () (Tree.ofEntries given) = .ok () := by
  induction given with
  | nil => rfl
  | cons e given ih =>
      obtain ⟨key, value⟩ := e
      rw [Tree.ofEntries, readMembers]
      refine bind_eq_ok_iff.2 ⟨key, rfl, ?_⟩
      rw [offer]
      refine bind_eq_ok_iff.2 ⟨(), ?_, ih⟩
      rw [Tree.skip_ofJson]
      rfl

/-- The entry of the first field fills it, wherever it stands, and the other
entries are read as if neither were there. -/
theorem readMembers_insert {field : Field α} {rest : Fields types} {a : α}
    {value : Json} {slots filled : Slots types}
    {before after : List (String × Json)}
    (hread : field.codec.read mode (.ofJson value) = .ok a)
    (hnames : ∀ e ∈ before ++ after, e.1 ≠ field.name)
    (h : rest.readMembers mode slots (Tree.ofEntries (before ++ after)) =
      .ok filled) :
    (cons field rest).readMembers mode (none, slots)
      (Tree.ofEntries (before ++ (field.name, value) :: after)) =
        .ok (some a, filled) := by
  induction before generalizing slots with
  | nil =>
      rw [List.nil_append, Tree.ofEntries, readMembers]
      refine bind_eq_ok_iff.2 ⟨field.name, rfl, ?_⟩
      rw [offer, if_pos rfl]
      refine bind_eq_ok_iff.2
        ⟨(some a, slots), bind_eq_ok_iff.2 ⟨a, hread, rfl⟩, ?_⟩
      exact readMembers_cons_of_ne hnames h
  | cons e before ih =>
      obtain ⟨key, other⟩ := e
      obtain ⟨hkey, hlater⟩ := List.forall_mem_cons.1 hnames
      rw [List.cons_append, Tree.ofEntries, readMembers] at h ⊢
      obtain ⟨name, hname, h⟩ := bind_eq_ok_iff.1 h
      cases hname
      refine bind_eq_ok_iff.2 ⟨key, rfl, ?_⟩
      simp only [offer, if_neg hkey]
      cases hoffer : rest.offer key slots with
      | taken =>
          rw [hoffer] at h
          cases h
      | unknown =>
          rw [hoffer] at h
          obtain ⟨skipped, hskip, h⟩ := bind_eq_ok_iff.1 h
          exact bind_eq_ok_iff.2 ⟨skipped, hskip, ih hlater h⟩
      | free fill =>
          rw [hoffer] at h
          obtain ⟨next, hfill, h⟩ := bind_eq_ok_iff.1 h
          exact bind_eq_ok_iff.2
            ⟨(none, next), bind_eq_ok_iff.2 ⟨next, hfill, rfl⟩, ih hlater h⟩

/-- The fields are filled as far as they are given, and completed to the written
ones. -/
theorem Lenient.exists_slots (h : fields.Lenient leeways)
    (hnames : fields.names.Nodup) {row : Row types}
    (hadmits : Leeway.Admits leeways (fields.entries row) given)
    (hroom : ∀ e ∈ given, mode.Holds e.2.nesting) :
    ∃ slots, fields.readMembers mode fields.noSlots (Tree.ofEntries given) =
        .ok slots ∧ fields.complete slots = .ok row := by
  induction h generalizing given with
  | nil => exact ⟨(), readMembers_nil given, rfl⟩
  | @cons α types field rest leeway leeways hname hcodec hspare hrest ih =>
      obtain ⟨a, row⟩ := row
      obtain ⟨hfirst, hlater⟩ := List.nodup_cons.1 hnames
      rw [hrest.names_eq, hname] at hfirst
      rcases hadmits.cases_cons hfirst with
        ⟨document, before, after, halike, rfl, hbut, hothers⟩ |
          ⟨hleft, hbut, hothers⟩
      · have hroom' : ∀ e ∈ before ++ after, mode.Holds e.2.nesting :=
          fun e he =>
            hroom e (List.perm_middle.mem_iff.2 (List.mem_cons_of_mem _ he))
        have hvalue : field.codec.read mode (.ofJson document) = .ok a :=
          (hcodec a).read halike (hroom (leeway.name, document) (by simp))
        obtain ⟨slots, hread, hcomplete⟩ := ih hlater hothers hroom'
        rw [← hname] at hbut ⊢
        refine ⟨(some a, slots), readMembers_insert hvalue hbut hread, ?_⟩
        exact bind_eq_ok_iff.2 ⟨row, hcomplete, rfl⟩
      · obtain ⟨slots, hread, hcomplete⟩ := ih hlater hothers hroom
        refine ⟨(none, slots), readMembers_cons_of_ne (hname ▸ hbut) hread, ?_⟩
        rw [complete, Option.none_or, hspare a hleft]
        exact bind_eq_ok_iff.2 ⟨row, hcomplete, rfl⟩

end Fields

/-! ## Records and tagged records -/

namespace Record

variable {ρ : Type} {record : Record ρ} {leeways : List Leeway} {mode : Mode}

/-- The fields let a document differ as told and have different names, and the
record is made up of them. -/
structure Lenient (record : Record ρ) (leeways : List Leeway) : Prop where
  names : record.fields.names.Nodup
  ofRow_toRow : ∀ value, record.ofRow (record.toRow value) = value
  fields : record.fields.Lenient leeways

theorem Lenient.readMembers (h : record.Lenient leeways) {value : ρ}
    {given : List (String × Json)}
    (hadmits : Leeway.Admits leeways (record.entries value) given)
    (hroom : ∀ e ∈ given, mode.Holds e.2.nesting) :
    record.readMembers mode (Tree.ofEntries given) = .ok value := by
  obtain ⟨slots, hread, hcomplete⟩ :=
    h.fields.exists_slots h.names hadmits hroom
  refine bind_eq_ok_iff.2 ⟨slots, hread, bind_eq_ok_iff.2 ⟨_, hcomplete, ?_⟩⟩
  rw [h.ofRow_toRow]
  rfl

theorem Lenient.codec (h : record.Lenient leeways) :
    record.codec.Lenient (Json.LooseRecord leeways) := by
  refine fun value =>
    ⟨.intro (h.fields.keeps_entries (record.toRow value)).admits, ?_⟩
  intro mode document hloose hroom
  have hwrite : record.codec.write value = .object (record.entries value) := rfl
  rw [hwrite] at hloose
  obtain ⟨hadmits⟩ := hloose
  obtain ⟨inner, henter, hinner⟩ := Mode.exists_enter hroom
  refine bind_eq_ok_iff.2 ⟨inner, henter, ?_⟩
  exact h.readMembers hadmits (Mode.holds_nestingOfEntries_iff.1 hinner)

end Record

namespace Choice

variable {α : Type} {choice : Choice α} {mode : Mode}

/-- The tag tells the reader wherever it stands, and the other entries are
kept. -/
theorem gather_insert {tag : String} {reader : RecordReader α}
    {before after : List (String × Json)} (htag : choice.find tag = .ok reader)
    (hnames : ∀ e ∈ before ++ after, e.1 ≠ choice.tagName)
    (hroom : ∀ e ∈ before ++ after, mode.Holds e.2.nesting) :
    choice.gather mode none
      (Tree.ofEntries (before ++ (choice.tagName, .string tag) :: after)) =
      .ok (some reader, before ++ after) := by
  induction before with
  | nil =>
      rw [List.nil_append, Tree.ofEntries, gather]
      refine bind_eq_ok_iff.2 ⟨choice.tagName, rfl, ?_⟩
      rw [if_pos rfl, Option.isSome_none, if_neg Bool.false_ne_true]
      refine bind_eq_ok_iff.2 ⟨reader, bind_eq_ok_iff.2 ⟨tag, rfl, htag⟩, ?_⟩
      exact gather_entries hnames (Mode.holds_nestingOfEntries_iff.2 hroom)
  | cons e before ih =>
      obtain ⟨key, value⟩ := e
      obtain ⟨hkey, hnames⟩ := List.forall_mem_cons.1 hnames
      obtain ⟨hvalue, hroom⟩ := List.forall_mem_cons.1 hroom
      rw [List.cons_append, Tree.ofEntries, gather]
      refine bind_eq_ok_iff.2 ⟨key, rfl, ?_⟩
      rw [if_neg hkey]
      refine bind_eq_ok_iff.2 ⟨value, Tree.readWhole_ofJson value hvalue, ?_⟩
      exact bind_eq_ok_iff.2 ⟨_, ih hnames hroom, rfl⟩

theorem Knows.lenientAt {ρ : Type} {record : Record ρ} {make : ρ → α}
    {leeways : List Leeway} {cases : List (String × List Leeway)}
    (h : choice.Knows record make) (hrecord : record.Lenient leeways)
    {value : ρ}
    (hcase : cases.lookup (choice.entries (make value)).1 = some leeways) :
    choice.codec.LenientAt (Json.LooseTagged choice.tagName cases)
      (make value) := by
  have hwrite : choice.codec.write (make value) =
      .object ((choice.tagName, .string (choice.entries (make value)).1) ::
        record.entries value) :=
    congrArg (fun entries => Json.object (_ :: entries)) (h.entries_eq value)
  refine ⟨?_, fun {mode document} hloose hroom => ?_⟩
  · rw [hwrite]
    exact .intro hcase
      (Leeway.Keeps.keep rfl (hrecord.fields.keeps_entries _)).admits
  · rw [hwrite] at hloose
    obtain ⟨hsame, hadmits⟩ := hloose
    obtain rfl := Option.some.inj (hcase.symm.trans hsame)
    rcases hadmits.cases_cons (hrecord.fields.names_eq ▸ h.untagged) with
      ⟨document, before, after, rfl, rfl, hbut, hothers⟩ | ⟨hleft, -⟩
    · obtain ⟨inner, henter, hinner⟩ := Mode.exists_enter hroom
      have hinner := Mode.holds_nestingOfEntries_iff.1 hinner
      have htag : choice.find (choice.entries (make value)).1 =
          .ok (record.reader.map make) := by
        rw [find, h.lookup_eq]
      have hgather := gather_insert htag hbut fun e he =>
        hinner e (List.perm_middle.mem_iff.2 (List.mem_cons_of_mem _ he))
      -- The second reading is from memory, where there is always room.
      have hread : record.readMembers .buffered
          (Tree.ofEntries (before ++ after)) = .ok value :=
        hrecord.readMembers hothers fun _ _ => trivial
      refine bind_eq_ok_iff.2 ⟨inner, henter, bind_eq_ok_iff.2 ⟨_, hgather, ?_⟩⟩
      exact bind_eq_ok_iff.2 ⟨value, hread, rfl⟩
    · cases hleft

end Choice

/-! ## Texts -/

/-- The text stands for the document: in front of nothing but blanks it is
scanned as it. -/
def Json.IsTextOf (text : String) (document : Json) : Prop :=
  ∃ blanks, Text.scan text = (.ofJson document, some blanks) ∧
    Text.dropBlanks blanks = []

theorem Json.isTextOf_render {layout : Layout} (hlayout : layout.IsBlank)
    {document : Json} (hfloats : document.FloatsReadBack) :
    IsTextOf (document.render layout) document := by
  refine ⟨[], Json.scan_append hlayout hfloats Text.isBlank_nil ?_, rfl⟩
  rw [Json.render, String.toList_ofList, List.append_nil]

/-- The value is what is read from the document: from memory, from every text
that stands for it, and so from the texts that it is rendered as. A text must
not have 128 brackets open at once, and what is rendered has to be scanned with
the same numbers. -/
structure Codec.Yields {α : Type} (codec : Codec α) (document : Json) (a : α) :
    Prop where
  ofJson : codec.ofJson document = .ok a
  ofText : document.nesting < 128 → ∀ text, Json.IsTextOf text document →
    codec.ofText text = .ok a
  ofRendered : document.nesting < 128 → document.FloatsReadBack →
    ∀ layout ∈ [Layout.compact, .pretty],
      codec.ofText (document.render layout) = .ok a

theorem Codec.LenientAt.yields {α : Type} {codec : Codec α}
    {alike : Json → Json → Prop} {a : α} (h : codec.LenientAt alike a)
    {document : Json} (halike : alike (codec.write a) document) :
    codec.Yields document a := by
  have htext : document.nesting < 128 → ∀ text, Json.IsTextOf text document →
      codec.ofText text = .ok a := by
    intro hnesting text htext
    obtain ⟨blanks, hscan, hblanks⟩ := htext
    have hroom : Mode.wholeText.Holds document.nesting :=
      Nat.le_of_lt_succ hnesting
    rw [Codec.ofText, hscan]
    refine bind_eq_ok_iff.2 ⟨a, h.read halike hroom, ?_⟩
    rw [Option.map_some, hblanks]
    rfl
  refine ⟨h.read halike trivial, htext,
    fun hnesting hfloats layout hlayout => htext hnesting _ ?_⟩
  simp only [List.mem_cons, List.not_mem_nil, or_false] at hlayout
  rcases hlayout with rfl | rfl
  · exact Json.isTextOf_render Layout.isBlank_compact hfloats
  · exact Json.isTextOf_render Layout.isBlank_pretty hfloats

end Workbench
