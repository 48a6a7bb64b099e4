/-!
Tags: what the step under way did to a symbol, a rule or a structure.

Every entry of a recorded state carries one tag.  A tag is never overwritten; `Tag.resolve`
decides between the tag an entry has and the one it is offered.  When a step is archived each
tag fades once (`Tag.decay`), by its `Tag.behavior`: it vanishes, stays, or turns into the tag
that follows it in `Tag.all`.  One fading is enough, a faded tag no longer changes.
-/

namespace Chronicle

/-- What a tag turns into when its step is archived. -/
inductive Decay
  /-- The tag is gone. -/
  | vanish
  /-- The tag stays. -/
  | persist
  /-- The next tag of `Tag.all` takes its place. -/
  | transfer
deriving DecidableEq, Repr

/-- The emphasis on one entry of a state. -/
inductive Tag
  | none
  | new
  | duplicate
  | removed
  | replaced
  | attentionNow
  | attentionPersistent
  | attentionWillTransfer
  | attentionWasSet
  | specialPersistent
  | specialTemporary
deriving DecidableEq, Repr, Inhabited

namespace Tag

/-- Every tag, in the order that `transfer` and the numbering follow. -/
def all : List Tag :=
  [none, new, duplicate, removed, replaced, attentionNow, attentionPersistent,
    attentionWillTransfer, attentionWasSet, specialPersistent, specialTemporary]

def behavior : Tag → Decay
  | none | attentionPersistent | attentionWasSet | specialPersistent => .persist
  | attentionWillTransfer => .transfer
  | new | duplicate | removed | replaced | attentionNow | specialTemporary => .vanish

/-- The place of a tag in `all`. -/
def index : Tag → Nat
  | none => 0
  | new => 1
  | duplicate => 2
  | removed => 3
  | replaced => 4
  | attentionNow => 5
  | attentionPersistent => 6
  | attentionWillTransfer => 7
  | attentionWasSet => 8
  | specialPersistent => 9
  | specialTemporary => 10

def ofIndex? (i : Nat) : Option Tag := all[i]?

/-- The tag after its step was archived; the last tag has none to turn into. -/
def decay (tag : Tag) : Tag :=
  match tag.behavior with
  | .vanish => none
  | .persist => tag
  | .transfer => (ofIndex? (tag.index + 1)).getD none

/-- Which of the present tag and a candidate an entry carries on: a removal is final, taking the
emphasis away always succeeds, and a new entry stays new unless it is replaced or is to attract
attention in the next step. -/
def resolve (present candidate : Tag) : Tag :=
  if present = removed then present
  else if candidate = none then candidate
  else if present = new ∧ candidate ≠ replaced ∧ candidate ≠ attentionWillTransfer then present
  else candidate

/-- What the tag tells a reader about its entry. -/
def description : Tag → String
  | none => ""
  | new => "entity was created in this step"
  | duplicate => "entity would be added in this step, but was already present"
  | removed => "entity was removed in this step"
  | replaced => "entity was changed in this step"
  | attentionNow | attentionWillTransfer => "entity was marked important in this step"
  | attentionPersistent => "entity was marked important"
  | attentionWasSet => "entity was marked important in some previous step"
  | specialPersistent | specialTemporary => "there is something special about the entity"

/-- The name shown to a reader, its words joined by dashes. -/
def text : Tag → String
  | none => "none"
  | new => "new"
  | duplicate => "duplicate"
  | removed => "removed"
  | replaced => "replaced"
  | attentionNow => "attention-now"
  | attentionPersistent => "attention-persistent"
  | attentionWillTransfer => "attention-will-transfer"
  | attentionWasSet => "attention-was-set"
  | specialPersistent => "special-persistent"
  | specialTemporary => "special-temporary"

/-- The name in archived data, its words joined by underscores. -/
def name : Tag → String
  | none => "none"
  | new => "new"
  | duplicate => "duplicate"
  | removed => "removed"
  | replaced => "replaced"
  | attentionNow => "attention_now"
  | attentionPersistent => "attention_persistent"
  | attentionWillTransfer => "attention_will_transfer"
  | attentionWasSet => "attention_was_set"
  | specialPersistent => "special_persistent"
  | specialTemporary => "special_temporary"

/-- The tag with the given name in archived data. -/
def ofName? (name : String) : Option Tag := all.find? fun tag => tag.name == name

theorem ofIndex?_index (tag : Tag) : ofIndex? tag.index = some tag := by cases tag <;> rfl

theorem ofName?_name (tag : Tag) : ofName? tag.name = some tag := by cases tag <;> decide

/-- A faded tag does not fade further. -/
@[simp] theorem decay_decay (tag : Tag) : tag.decay.decay = tag.decay := by cases tag <;> rfl

@[simp] theorem resolve_removed (candidate : Tag) : resolve removed candidate = removed := rfl

@[simp] theorem resolve_self (tag : Tag) : resolve tag tag = tag := by cases tag <;> rfl

end Tag

end Chronicle
