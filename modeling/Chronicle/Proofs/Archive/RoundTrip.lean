import Chronicle.Archive.Decode
import Chronicle.Proofs.Json.RoundTrip
import Chronicle.SortedMap.Lemmas
/-!
Archived data survive their text.

A writer and a reader of one type of data belong together if what is written is a value all the way
down and is read as itself (`Faithful`).  This goes from parts to wholes: from texts and tags to
lists and maps of them, from these to the objects with fixed members.  A whole that is faithful
survives the text on one line and the text over several lines.

A structure is read in two parts, and its content has to be kept until its kind is known.  No
archived content is refused there: it has no numbers, and the cells of a table, with four levels of
containers, are the deepest that there is.

Main statements: `SnapshotData.text_round_trip`, and `Faithful` for the two forms of a grammar.
-/

namespace Chronicle

namespace Json

variable {α β : Type} {write : α → Json} {read : Json → Option α}

/-- The writer gives values, and the reader takes what is written for what it was. -/
structure Faithful (write : α → Json) (read : Json → Option α) : Prop where
  proper : ∀ a, Proper (write a)
  read_write : ∀ a, read (write a) = some a

theorem Number.toInt?_ofInt (i : Int) : (ofInt i).toInt? = some i := by
  cases i with
  | ofNat n => rfl
  | negSucc n =>
      have hspelled : ofInt (Int.negSucc n) = integer true (n + 1) := by
        simp [ofInt, Int.negSucc_lt_zero]
      rw [hspelled, Int.negSucc_eq]
      rfl

namespace Faithful

/-- What is written on one line is what it was. -/
theorem read_compactText (h : Faithful write read) (a : α) :
    (ofText? (compactText (write a))).bind read = some a := by
  rw [ofText?_compactText (h.proper a), Option.bind_some, h.read_write]

/-- What is written over several lines is what it was. -/
theorem read_prettyText (h : Faithful write read) (a : α) :
    (ofText? (prettyText (write a))).bind read = some a := by
  rw [ofText?_prettyText (h.proper a), Option.bind_some, h.read_write]

/-! ### Texts, lists and maps -/

theorem text : Faithful Json.string toString? := ⟨.string, fun _ => rfl⟩

theorem tag (isEmpty : Json → Bool) : Faithful Tag.toJson (toTag? isEmpty) :=
  ⟨fun tag => .string tag.name, fun tag => Tag.ofName?_name tag⟩

theorem mapM_read (h : Faithful write read) (items : List α) :
    (items.map write).mapM read = some items := by
  induction items with
  | nil => rfl
  | cons a items ih => simp [h.read_write, ih]

theorem list (h : Faithful write read) :
    Faithful (fun items => array (items.map write)) (toList? read) where
  proper items := .array fun item hitem => by
    obtain ⟨a, -, rfl⟩ := List.mem_map.mp hitem
    exact h.proper a
  read_write items := h.mapM_read items

theorem texts : Faithful strings toStrings? := text.list

/-- A map of values that survive. -/
theorem map (h : Faithful write read) :
    Faithful (SortedMap.toJson write) (toMap? read) where
  proper m := .object fun member hmember => by
    obtain ⟨⟨key, a⟩, -, rfl⟩ := List.mem_map.mp hmember
    exact h.proper a
  read_write m := by
    have hpairs : (m.toList.map fun p => (p.1, write p.2)).mapM
        (fun p => (read p.2).map (p.1, ·)) = some m.toList := by
      induction m.toList with
      | nil => rfl
      | cons pair pairs ih => simp [h.read_write, ih]
    calc toMap? read (m.toJson write)
      _ = (some m.toList).bind fun pairs => some (.ofList pairs) := by
          rw [← hpairs]
          rfl
      _ = some m := by rw [Option.bind_some, SortedMap.ofList_toList]

theorem pair : Faithful (fun (a, b) => strings [a, b]) toPair? where
  proper _ := texts.proper _
  read_write _ := rfl

/-! ### Numbers -/

theorem priority : Faithful (fun p : Int32 => number (.ofInt p.toInt)) toInt32? where
  proper _ := .number _
  read_write p := by simp [toInt32?, Number.toInt?_ofInt]

end Faithful

end Json

open Json

/-! ### Grammars -/

theorem PlainGrammar.faithful : Faithful toJson ofJson? where
  proper g := .object (by
    simp [Faithful.texts.proper, Faithful.texts.map.proper, Proper.string])
  read_write g := by
    simp [toJson, ofJson?, toFour?, optional?, required?, fixed?, Faithful.texts.read_write,
      Faithful.texts.map.read_write, toString?]

theorem GrammarData.faithful : Faithful toJson ofJson? where
  proper g := .object (by
    have htags := (Faithful.tag isNull).map
    simp [htags.proper, htags.map.proper, Proper.string])
  read_write g := by
    have htags := (Faithful.tag isNull).map
    simp [toJson, ofJson?, toFour?, optional?, required?, fixed?, toOwnTag?, htags.read_write,
      htags.map.read_write, toString?]

/-! ### The content of structures -/

theorem CellData.faithful : Faithful toJson ofJson? where
  proper cell := .object (by
    simp [Faithful.texts.proper, (Faithful.tag isNull).proper])
  read_write cell := by
    simp [toJson, ofJson?, optional?, required?, fixed?, toInnerTag?, (Faithful.tag _).read_write,
      Faithful.texts.read_write]

theorem StructureKind.ofJson?_typeName (kind : StructureKind) :
    ofJson? (.string kind.typeName) = some kind := by
  cases kind <;> decide

namespace BodyData

theorem proper_members (body : BodyData) : ∀ member ∈ body.members, Proper member.2 := by
  cases body with
  | symbolSet items tag => simp [members, Faithful.texts.proper, (Faithful.tag isNull).proper]
  | table rows columns cells =>
      simp [members, Faithful.text.map.proper, CellData.faithful.map.map.proper]
  | symbolMapping pairs =>
      have hpairs := Faithful.pair.list.proper pairs
      simp [members, hpairs]
  | stack items => simp [members, Faithful.texts.proper]

/-- The content is read from its members, whatever is the name of its kind. -/
theorem ofMembers?_members (body : BodyData) (type : Json) :
    ofMembers? (("type", type) :: body.members) body.kind = some body := by
  cases body with
  | symbolSet items tag =>
      simp [members, kind, ofMembers?, optional?, required?, fixed?, toInnerTag?,
        (Faithful.tag _).read_write, Faithful.texts.read_write]
  | table rows columns cells =>
      simp [members, kind, ofMembers?, required?, fixed?, Faithful.text.map.read_write,
        CellData.faithful.map.map.read_write]
  | symbolMapping pairs =>
      have hpairs := Faithful.pair.list.read_write pairs
      simp [members, kind, ofMembers?, required?, fixed?, hpairs]
  | stack items =>
      simp [members, kind, ofMembers?, required?, fixed?, Faithful.texts.read_write]

end BodyData

/-! ### Keeping the content of structures -/

namespace Json

attribute [local simp] isKeepable areKeepable membersKeepable

theorem areKeepable_iff {room : Nat} {items : List Json} :
    areKeepable room items = true ↔ ∀ item ∈ items, isKeepable room item = true := by
  induction items with
  | nil => simp
  | cons item items ih => simp [ih]

theorem membersKeepable_iff {room : Nat} {members : List (String × Json)} :
    membersKeepable room members = true ↔
      ∀ member ∈ members, isKeepable room member.2 = true := by
  induction members with
  | nil => simp
  | cons member members ih => simp [ih]

theorem isKeepable_array {room : Nat} {items : List Json}
    (h : ∀ item ∈ items, isKeepable room item = true) :
    isKeepable (room + 1) (array items) = true := by
  simp [areKeepable_iff.mpr h]

theorem isKeepable_object {room : Nat} {members : List (String × Json)}
    (h : ∀ member ∈ members, isKeepable room member.2 = true) :
    isKeepable (room + 1) (object members) = true := by
  simp [membersKeepable_iff.mpr h]

theorem isKeepable_strings (room : Nat) (items : List String) :
    isKeepable (room + 1) (strings items) = true := by
  refine isKeepable_array fun item hitem => ?_
  obtain ⟨text, -, rfl⟩ := List.mem_map.mp hitem
  rw [isKeepable]

theorem isKeepable_map {α : Type} {write : α → Json} {room : Nat}
    (h : ∀ a, isKeepable room (write a) = true) (m : SortedMap String α) :
    isKeepable (room + 1) (m.toJson write) = true := by
  refine isKeepable_object fun member hmember => ?_
  obtain ⟨⟨key, a⟩, -, rfl⟩ := List.mem_map.mp hmember
  exact h a

end Json

theorem CellData.isKeepable_toJson (room : Nat) (cell : CellData) :
    isKeepable (room + 2) cell.toJson = true :=
  isKeepable_object (by simp [isKeepable_strings, Tag.toJson, isKeepable])

/-- Four levels of containers are enough for the content of any structure. -/
theorem BodyData.isKeepable_members (room : Nat) (body : BodyData) :
    ∀ member ∈ body.members, isKeepable (room + 4) member.2 = true := by
  cases body with
  | symbolSet items tag => simp [members, isKeepable_strings, Tag.toJson, isKeepable]
  | table rows columns cells =>
      have htexts : ∀ text, isKeepable (room + 3) (string text) = true := fun _ => by
        rw [isKeepable]
      simp [members, isKeepable_map htexts,
        isKeepable_map (isKeepable_map (CellData.isKeepable_toJson room))]
  | symbolMapping pairs =>
      have hpairs : isKeepable (room + 4)
          (array (pairs.map fun (source, target) => strings [source, target])) = true := by
        refine isKeepable_array fun item hitem => ?_
        obtain ⟨pair, -, rfl⟩ := List.mem_map.mp hitem
        exact isKeepable_strings (room + 2) _
      simp [members, hpairs]
  | stack items => simp [members, isKeepable_strings]

/-! ### Structures and snapshots -/

namespace StructureData

/-- The members in front of those that hold the content. -/
def front (s : StructureData) : List (String × Json) :=
  [("id", .string s.id), ("name", .string s.name), ("tag", s.tag.toJson),
    ("priority", .number (.ofInt s.priority.toInt)), ("type", .string s.body.kind.typeName)]

theorem toJson_eq (s : StructureData) : s.toJson = .object (s.front ++ s.body.members) := rfl

/-- What is kept of an archived structure is the name of its kind and its content. -/
theorem filter_front_append (s : StructureData) :
    (s.front ++ s.body.members).filter (fun (key, _) => !ownKeys.contains key) =
      ("type", .string s.body.kind.typeName) :: s.body.members := by
  obtain ⟨id, name, tag, priority, body⟩ := s
  cases body <;> simp [front, BodyData.members, ownKeys]

/-- No member of the content has a key of the members in front of it. -/
theorem fixed?_append_members (own : List (String × Json)) (body : BodyData) {key : String}
    (hkey : key ∈ "type" :: ownKeys) : fixed? (own ++ body.members) key = fixed? own key := by
  have hnone : body.members.filter (·.1 == key) = [] := by
    simp only [ownKeys, List.mem_cons, List.not_mem_nil, or_false] at hkey
    rcases hkey with rfl | rfl | rfl | rfl | rfl <;> cases body <;> simp [BodyData.members]
  rw [fixed?, List.filter_append, hnone, List.append_nil, fixed?]

/-- The kind is read from what is kept. -/
theorem required?_type (s : StructureData) :
    required? StructureKind.ofJson?
      (("type", .string s.body.kind.typeName) :: s.body.members) "type" = some s.body.kind := by
  rw [required?, ← List.singleton_append, fixed?_append_members _ _ List.mem_cons_self]
  simp [fixed?, StructureKind.ofJson?_typeName]

theorem membersKeepable_kept (s : StructureData) (room : Nat) :
    membersKeepable (room + 4)
      (("type", .string s.body.kind.typeName) :: s.body.members) = true :=
  membersKeepable_iff.mpr (List.forall_mem_cons.mpr
    ⟨by rw [isKeepable], s.body.isKeepable_members room⟩)

theorem faithful (room : Nat) : Faithful toJson (ofJson? (room + 4)) where
  proper s := .object (by
    have hmembers := s.body.proper_members
    simpa [Proper.string, Proper.number, Tag.toJson] using hmembers)
  read_write s := by
    have hfixed := fun key hkey =>
      @fixed?_append_members s.front s.body key (List.mem_cons_of_mem _ hkey)
    have hguard : (guard (true = true) : Option Unit) = some () := rfl
    rw [toJson_eq, ofJson?, filter_front_append, membersKeepable_kept, hguard, required?_type]
    simp only [required?, optional?, hfixed "id" (by decide), hfixed "name" (by decide),
      hfixed "tag" (by decide), hfixed "priority" (by decide)]
    simp [front, fixed?, BodyData.ofMembers?_members, Faithful.text.read_write, toOwnTag?,
      (Faithful.tag _).read_write, Faithful.priority.read_write]

end StructureData

theorem SnapshotData.faithful : Faithful toJson ofJson? where
  proper s := .object (by
    simp [GrammarData.faithful.proper, (StructureData.faithful 0).map.proper])
  read_write s := by
    simp [toJson, ofJson?, optional?, required?, fixed?, GrammarData.faithful.read_write, maxNesting,
      (StructureData.faithful 120).map.read_write]

/-- **Archives survive their text**: whatever the names, the tags, the priorities and the
structures are, both forms of the text are read as the archive that was written. -/
theorem SnapshotData.text_round_trip (d : SnapshotData) :
    (ofText? (compactText d.toJson)).bind SnapshotData.ofJson? = some d ∧
      (ofText? (prettyText d.toJson)).bind SnapshotData.ofJson? = some d :=
  ⟨faithful.read_compactText d, faithful.read_prettyText d⟩

end Chronicle
