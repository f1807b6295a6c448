import RankedStore.Proofs.Failure
import RankedStore.Proofs.Levels

/-! Runs of one connection whose caller keeps records: what a save has to say about the row of its
record. A record does not know when a transaction is rolled back, so a record without unsaved
changes may have lost its row. It has it for sure as long as nothing was given up that was open when
the row was last seen. -/
namespace RankedStore

open RankedStore.Action

/-- A record of the caller. -/
structure Slot where
  record : Record
  /-- The depth at which the row of the record was seen first, if it has been there since. -/
  since : Option Nat := none

/-- A session and the records that its caller keeps by names of its own. -/
structure Desk where
  session : Session
  slots : String → Option Slot

namespace Desk

inductive Step
  | create (slot entity : String)
  | set (slot field : String) (value : Value)
  | save (slot : String)
  | remove (slot : String)
  | refresh (slot : String)
  | find (slot entity : String) (id : Int64)
  | begin
  | commit
  | rollback
  /-- Other connections write these tables. -/
  | elsewhere (catalog : Catalog)

def ofCommitted (committed : Committed) : Desk := ⟨⟨committed, .idle 0, []⟩, fun _ => none⟩

def depth (d : Desk) : Nat := d.session.log.depth

def put (d : Desk) (name : String) (slot : Slot) : Desk :=
  { d with slots := fun other => if other = name then some slot else d.slots other }

def revise (d : Desk) (f : Slot → Slot) : Desk :=
  { d with slots := fun name => (d.slots name).map f }

/-- The row of the record is there now. -/
def seen (d : Desk) (name : String) (slot : Slot) : Desk :=
  d.put name { slot with since := slot.since <|> some d.depth }

/-- A level has ended. Either what it did is kept one level up, or it is given up. -/
def ended (d : Desk) (kept : Bool) : Desk :=
  d.revise fun slot => { slot with
    since := if kept then slot.since.map (min d.depth) else slot.since.filter (· ≤ d.depth) }

def create (g : Registry) (d : Desk) (name entity : String) : Desk :=
  match g.create entity with
  | .ok record => d.put name ⟨record, none⟩
  | .error _ => d

def set (d : Desk) (name field : String) (value : Value) : Desk :=
  match d.slots name with
  | none => d
  | some slot => match slot.record.set field value with
    | .ok record => d.put name { slot with record }
    | .error _ => d

def save (g : Registry) (d : Desk) (name : String) : Desk :=
  match d.slots name with
  | none => d
  | some slot => match g.saveInPlace.run slot.record d.session with
    | ((.ok (), record), session) =>
      if slot.record.isNew || slot.record.isDirty then { d with session }.seen name { slot with
        record }
      else { d with session }.put name { slot with record }
    | ((.error _, record), session) => { d with session }.put name { slot with record }

/-- With the row of one record goes that of all records with its id. -/
def remove (g : Registry) (d : Desk) (name : String) : Desk :=
  match d.slots name with
  | none => d
  | some slot => match g.removeInPlace.run slot.record d.session with
    | ((.ok (), record), session) =>
      ({ d with session }.revise fun other => { other with
        since := if g.place? other.record = g.place? slot.record then none else other.since }).put
          name ⟨record, none⟩
    | ((.error _, record), session) => { d with session }.put name { slot with record }

/-- A row may have been written under another id than its own, so the record tells which row was
seen. -/
def refresh (g : Registry) (d : Desk) (name : String) : Desk :=
  match d.slots name with
  | none => d
  | some slot => match (g.refresh slot.record).run d.session with
    | (.ok record, session) =>
      if record.id = slot.record.id then { d with session }.seen name { slot with record }
      else { d with session }.put name ⟨record, none⟩
    | (.error _, session) => { d with session }

def find (g : Registry) (d : Desk) (name entity : String) (id : Int64) : Desk :=
  match (g.find entity id).run d.session with
  | (.ok (some record), session) =>
    if record.id = some id then { d with session }.seen name ⟨record, none⟩
    else { d with session }.put name ⟨record, none⟩
  | (_, session) => { d with session }

def begin (d : Desk) : Desk := { d with session := (Action.begin.run d.session).2 }

/-- A transaction without changes ends well even if others wrote, but then the tables are theirs. -/
def commit (d : Desk) : Desk :=
  match Action.commit.run d.session with
  | (answer, session) => { d with session }.ended
    (answer.isOk && (session.log.depth ≠ 0 || d.session.current))

def rollback (d : Desk) : Desk :=
  { d with session := (Action.rollback.run d.session).2 }.ended false

/-- Inside a transaction the rows are still there, but not in the tables outside of it. -/
def elsewhere (d : Desk) (catalog : Catalog) : Desk :=
  { d with session.committed := ⟨catalog, d.session.committed.version + 1⟩ }.revise fun slot =>
    { slot with since := if d.depth = 0 then none else slot.since.map (max 1) }

def step (g : Registry) (d : Desk) : Step → Desk
  | .create name entity => d.create g name entity
  | .set name field value => d.set name field value
  | .save name => d.save g name
  | .remove name => d.remove g name
  | .refresh name => d.refresh g name
  | .find name entity id => d.find g name entity id
  | .begin => d.begin
  | .commit => d.commit
  | .rollback => d.rollback
  | .elsewhere catalog => d.elsewhere catalog

def play (g : Registry) (d : Desk) (steps : List Step) : Desk := steps.foldl (step g) d

end Desk

namespace Registry

variable {g : Registry} {r r' : Record} {c c' : Catalog}

/-- The row under the id of a record is also that of the record as it became, with its id. -/
theorem row?_became (entity : r'.entity = r.entity) (kept : ∀ id, r.id = some id → r'.id = some id)
    (there : (g.row? c r).isSome) : (g.row? c r').isSome := by
  obtain ⟨reg, id, known, persisted, stored⟩ := row?_isSome_iff.mp there
  exact row?_isSome_iff.mpr ⟨reg, id, entity ▸ known, kept id persisted, stored⟩

theorem row?_mono (rows : ∀ name id, g.place? r = some (name, id) → (c.row? name id).isSome →
    (c'.row? name id).isSome) (there : (g.row? c r).isSome) : (g.row? c' r).isSome := by
  obtain ⟨reg, id, known, persisted, stored⟩ := row?_isSome_iff.mp there
  have still := rows reg.layout.name id (place?_of_find? known persisted) stored
  exact row?_isSome_iff.mpr ⟨reg, id, known, persisted, still⟩

theorem Stores.row? (stores : g.Stores c r) : (g.row? c r).isSome := by
  obtain ⟨_, row, _, _, stored⟩ := stores
  rw [stored]
  rfl

/-- A record is only refreshed from its row. -/
theorem refresh_completes (g : Registry) (r : Record) (c : Catalog) :
    Completes Table.SameIds (g.refresh r) c fun loaded c' => c' = c ∧ loaded.entity = r.entity ∧
      (g.row? c r).isSome := by
  have stable := Table.sameIds_stable
  refine .after stable (.ofExcept rfl) fun reg known => .after stable (.ofExcept rfl)
    fun id own => ?_
  have persisted := Record.id_of_requireId own
  refine .after stable (.read rfl) fun stored seen => ?_
  obtain ⟨t, found, stored_eq⟩ := Except.bind_eq_ok seen
  cases stored with
  | none => exact .ofReading stable (.throw ..) (by rintro x ⟨⟩)
  | some row =>
    refine .ofReading stable (.ofExcept rfl) fun loaded load => ⟨rfl, Record.load_entity load, ?_⟩
    · rw [row?_of_find? known persisted, Catalog.row?_of_table (Catalog.table_eq_ok.mp found),
        Except.ok.inj stored_eq]
      rfl

/-- A record is only found where there is a row. -/
theorem find_completes (made : g.Made) (entity : String) (id : Int64) (c : Catalog) :
    Completes Table.SameIds (g.find entity id) c fun found c' => c' = c ∧
      ∀ record, found = some record → record.id = some id → (g.row? c record).isSome := by
  have stable := Table.sameIds_stable
  refine .after stable (.ofExcept rfl) fun reg known => .after stable (.read rfl)
    fun stored seen => ?_
  obtain ⟨t, found, stored_eq⟩ := Except.bind_eq_ok seen
  cases stored with
  | none => exact .ofReading stable (.pure ..) (by rintro x ⟨⟩; simp)
  | some row =>
    refine .after stable (.ofExcept rfl) fun loaded load => ?_
    refine .ofReading stable (.pure ..) ?_
    rintro _ ⟨⟩
    refine ⟨rfl, ?_⟩
    rintro _ ⟨⟩ persisted
    obtain ⟨schema, named, checked, ofSchema⟩ := made entity reg known
    have name : reg.layout.name = entity := (Registration.ofSchema_name ofSchema).trans named
    have same : loaded.entity = entity := (Record.load_entity load).trans name
    refine row?_isSome_iff.mpr ⟨reg, id, same ▸ known, persisted, ?_⟩
    rw [name, Catalog.row?_of_table (Catalog.table_eq_ok.mp found), Except.ok.inj stored_eq]
    rfl

end Registry

namespace Desk

variable {g : Registry} {d : Desk} {slots slots' : String → Option Slot}

/-- The records whose rows were seen at this depth or further out have them. -/
def Certain (g : Registry) (slots : String → Option Slot) (depth : Nat) (c : Catalog) : Prop :=
  ∀ name slot n, slots name = some slot → slot.since = some n → n ≤ depth →
    (g.row? c slot.record).isSome

/-- What is said of the records is true at every depth. -/
structure Sure (g : Registry) (d : Desk) : Prop where
  deep : d.session.Deep (Certain g d.slots)
  bounded : ∀ name slot n, d.slots name = some slot → slot.since = some n → n ≤ d.depth

theorem row?_of_same {c c' : Catalog} (same : c.SameIds c') (r : Record)
    (there : (g.row? c r).isSome) :
    (g.row? c' r).isSome :=
  Registry.row?_mono (fun key id _ held => by rwa [← same.row?]) there

theorem Certain.same (certain : Certain g slots n c) (same : c.SameIds c') :
    Certain g slots n c' := by
  intro name slot m here since le
  exact row?_of_same same slot.record (certain name slot m here since le)

theorem Sure.row? (sure : d.Sure g) (here : d.slots name = some slot)
    (since : slot.since = some n) :
    (g.row? d.session.view slot.record).isSome :=
  sure.deep.view name slot n here since (sure.bounded name slot n here since)

theorem Sure.ofCommitted (g : Registry) (committed : Committed) :
    (ofCommitted committed).Sure g := by
  refine ⟨.idle _ _ ?_, ?_⟩
  · rintro name slot n ⟨⟩
  · rintro name slot n ⟨⟩

/-- Records whose marks and rows are those that they had. -/
theorem Sure.weaken (sure : d.Sure g) (marks : ∀ name slot n, slots' name = some slot →
    slot.since = some n → ∃ old, d.slots name = some old ∧ old.since = some n ∧
      ∀ c, (g.row? c old.record).isSome → (g.row? c slot.record).isSome) :
    Sure g { d with slots := slots' } := by
  refine ⟨sure.deep.mono fun n e _ certain => ?_, ?_⟩
  · intro name slot m here since le
    obtain ⟨old, there, since', rows⟩ := marks name slot m here since
    exact rows e (certain name old m there since' le)
  · intro name slot n here since
    obtain ⟨old, there, since', _⟩ := marks name slot n here since
    exact sure.bounded name old n there since'

/-- After an action at the innermost level, the rows of the marked records are there, and marks from
further out are those that there were. -/
theorem Sure.of_settled (depth : s'.log.depth = d.depth)
    (deep : ∀ P', (∀ n e, n < d.depth → Certain g d.slots n e → P' n e) → P' d.depth s'.view →
      s'.Deep P') (marks : ∀ name slot n, slots' name = some slot → slot.since = some n →
      n ≤ d.depth ∧
      (g.row? s'.view slot.record).isSome ∧ (n < d.depth → ∃ old, d.slots name = some old ∧
        old.since = some n ∧ ∀ c, (g.row? c old.record).isSome → (g.row? c slot.record).isSome)) :
    Sure g ⟨s', slots'⟩ := by
  refine ⟨deep _ ?_ ?_, ?_⟩
  · intro n e lt certain name slot m here since le
    obtain ⟨old, there, since', rows⟩ := (marks name slot m here since).2.2 (by omega)
    exact rows e (certain name old m there since' le)
  · intro name slot n here since _
    exact (marks name slot n here since).2.1
  · intro name slot n here since
    show n ≤ s'.log.depth
    rw [depth]
    exact (marks name slot n here since).1

/-- The same where one record changes and the rows of the others stay. -/
theorem Sure.put (sure : d.Sure g) (depth : s'.log.depth = d.depth)
    (deep : ∀ P', (∀ n e, n < d.depth → Certain g d.slots n e → P' n e) → P' d.depth s'.view →
      s'.Deep P') (others : ∀ r, (g.row? d.session.view r).isSome → (g.row? s'.view r).isSome)
    (own : ∀ n, slot.since = some n → n ≤ d.depth ∧ (g.row? s'.view slot.record).isSome ∧
      (n < d.depth → ∃ old, d.slots name = some old ∧ old.since = some n ∧
        ∀ c, (g.row? c old.record).isSome → (g.row? c slot.record).isSome)) :
    Sure g ({ d with session := s' }.put name slot) := by
  refine .of_settled depth deep fun other slot' n here since => ?_
  dsimp only at here
  split at here
  case isTrue same =>
    cases here
    subst same
    exact own n since
  case isFalse =>
    have there := others slot'.record (sure.row? here since)
    exact ⟨sure.bounded other slot' n here since, there, fun _ =>
      ⟨slot', here, since, fun _ held => held⟩⟩

/-- The same where the row of the changed record was seen. -/
theorem Sure.seen (sure : d.Sure g) (depth : s'.log.depth = d.depth)
    (deep : ∀ P', (∀ n e, n < d.depth → Certain g d.slots n e → P' n e) → P' d.depth s'.view →
      s'.Deep P') (others : ∀ r, (g.row? d.session.view r).isSome → (g.row? s'.view r).isSome)
    (stored : (g.row? s'.view slot.record).isSome)
    (before : ∀ n, slot.since = some n → ∃ old, d.slots name = some old ∧ old.since = some n ∧
      ∀ c, (g.row? c old.record).isSome → (g.row? c slot.record).isSome) :
    Sure g ({ d with session := s' }.seen name slot) := by
  refine sure.put depth deep others fun n since => ?_
  dsimp only at since
  cases mark : slot.since with
  | none =>
    rw [mark] at since
    obtain rfl : s'.log.depth = n := Option.some.inj since
    exact ⟨Nat.le_of_eq depth, stored, fun lt => absurd depth (Nat.ne_of_lt lt)⟩
  | some m =>
    rw [mark] at since
    obtain rfl : m = n := Option.some.inj since
    obtain ⟨old, here, since, rows⟩ := before m mark
    exact ⟨sure.bounded name old m here since, stored, fun _ => ⟨old, here, since, rows⟩⟩

/-- After a failure, and after looking at the tables, the same rows are there. -/
theorem Sure.unchanged (sure : d.Sure g) (depth : s'.log.depth = d.depth)
    (deep : ∀ P', (∀ n e, n < d.depth → Certain g d.slots n e → P' n e) → P' d.depth s'.view →
      s'.Deep P') (same : d.session.view.SameIds s'.view) : Sure g { d with session := s' } := by
  refine ⟨deep _ (fun _ _ _ certain => certain) (sure.deep.view.same same), ?_⟩
  intro name slot n here since
  show n ≤ s'.log.depth
  rw [depth]
  exact sure.bounded name slot n here since

theorem put_self (d : Desk) (here : d.slots name = some slot) : d.put name slot = d := by
  unfold put
  congr 1
  funext other
  split
  case isTrue same => rw [same, here]
  case isFalse => rfl

namespace Sure

variable {name : String} {slot : Slot}

theorem create (sure : d.Sure g) (name entity : String) : (d.create g name entity).Sure g := by
  unfold Desk.create
  split
  case h_1 record _ =>
    refine sure.weaken fun other slot n here since => ?_
    split at here
    case isTrue =>
      cases here
      cases since
    case isFalse => exact ⟨slot, here, since, fun _ held => held⟩
  case h_2 => exact sure

theorem set (sure : d.Sure g) (name field : String) (value : Value) :
    (d.set name field value).Sure g := by
  unfold Desk.set
  cases here : d.slots name with
  | none => exact sure
  | some slot =>
    dsimp only
    cases changed : slot.record.set field value with
    | error e => exact sure
    | ok record =>
      refine sure.weaken fun other slot' n there since => ?_
      split at there
      case isTrue same =>
        cases there
        subst same
        unfold Record.set at changed
        split at changed <;> cases changed
        exact ⟨slot, here, since, fun c => Registry.row?_became rfl fun _ own => own⟩
      case isFalse => exact ⟨slot', there, since, fun _ held => held⟩

theorem save (made : g.Made) (sure : d.Sure g) (name : String) : (d.save g name).Sure g := by
  unfold Desk.save
  cases here : d.slots name with
  | none => exact sure
  | some slot =>
    obtain ⟨answer, s', ran, depth, succeeded, failed, deep⟩ :=
      (Registry.save_stores made slot.record d.session.view).deep Table.sameIds_stable sure.deep
    have inPlace := g.save_keeps.run_eq g.save_mirrors sure.deep.proper slot.record
    rw [ran] at inPlace
    dsimp only at inPlace ⊢
    rw [inPlace]
    cases answer with
    | error e =>
      dsimp only
      rw [put_self { d with session := s' } here]
      exact sure.unchanged depth deep (failed e rfl)
    | ok saved =>
      have done := succeeded saved rfl
      have rows : ∀ r, (g.row? d.session.view r).isSome → (g.row? s'.view r).isSome := fun r =>
        Registry.row?_mono fun key id _ there => done.rows key id there
      have became : ∀ c, (g.row? c slot.record).isSome → (g.row? c saved).isSome := fun c =>
        Registry.row?_became done.entity done.kept
      dsimp only
      split
      case isTrue written =>
        have stored := (done.stores (by simpa using written)).row?
        exact sure.seen depth deep rows stored fun n since => ⟨slot, here, since, became⟩
      case isFalse =>
        refine sure.put depth deep rows fun n since => ?_
        exact ⟨sure.bounded name slot n here since, became _ (rows _ (sure.row? here since)),
          fun _ => ⟨slot, here, since, became⟩⟩

theorem remove (sure : d.Sure g) (name : String) : (d.remove g name).Sure g := by
  unfold Desk.remove
  cases here : d.slots name with
  | none => exact sure
  | some slot =>
    obtain ⟨answer, s', ran, depth, succeeded, failed, deep⟩ :=
      (g.remove_rows slot.record d.session.view).deep Table.sameIds_stable sure.deep
    have inPlace := g.remove_keeps.run_eq g.remove_mirrors sure.deep.proper slot.record
    rw [ran] at inPlace
    dsimp only at inPlace ⊢
    rw [inPlace]
    cases answer with
    | error e =>
      dsimp only
      rw [put_self { d with session := s' } here]
      exact sure.unchanged depth deep (failed e rfl)
    | ok removed =>
      obtain ⟨-, rows⟩ := succeeded removed rfl
      refine .of_settled depth deep fun other slot' n there since => ?_
      dsimp only [Desk.revise] at there
      split at there
      case isTrue =>
        cases there
        cases since
      case isFalse =>
        obtain ⟨old, found, rfl⟩ := Option.map_eq_some_iff.mp there
        dsimp only at since ⊢
        split at since
        case isTrue => cases since
        case isFalse apart =>
          have stays := Registry.row?_mono
            (fun key id place held => rows key id (place ▸ Ne.symm apart) held)
            (sure.row? found since)
          exact ⟨sure.bounded other old n found since, stays,
            fun _ => ⟨old, found, since, fun _ held => held⟩⟩

theorem refresh (sure : d.Sure g) (name : String) : (d.refresh g name).Sure g := by
  unfold Desk.refresh
  cases here : d.slots name with
  | none => exact sure
  | some slot =>
    obtain ⟨answer, s', ran, depth, succeeded, failed, deep⟩ :=
      (g.refresh_completes slot.record d.session.view).deep Table.sameIds_stable sure.deep
    dsimp only
    rw [ran]
    cases answer with
    | error e => exact sure.unchanged depth deep (failed e rfl)
    | ok loaded =>
      obtain ⟨view, entity, stored⟩ := succeeded loaded rfl
      have rows : ∀ r, (g.row? d.session.view r).isSome → (g.row? s'.view r).isSome :=
        fun r there => view ▸ there
      dsimp only
      split
      case isTrue same =>
        have became : ∀ c, (g.row? c slot.record).isSome → (g.row? c loaded).isSome := fun c =>
          Registry.row?_became entity fun _ own => same.trans own
        have stored := became _ (rows _ stored)
        exact sure.seen depth deep rows stored fun n since => ⟨slot, here, since, became⟩
      case isFalse => exact sure.put depth deep rows (by rintro n ⟨⟩)

theorem find (made : g.Made) (sure : d.Sure g) (name entity : String) (id : Int64) :
    (d.find g name entity id).Sure g := by
  unfold Desk.find
  obtain ⟨answer, s', ran, depth, succeeded, failed, deep⟩ :=
    (Registry.find_completes made entity id d.session.view).deep Table.sameIds_stable sure.deep
  rw [ran]
  cases answer with
  | error e => exact sure.unchanged depth deep (failed e rfl)
  | ok found =>
    obtain ⟨view, stored⟩ := succeeded found rfl
    cases found with
    | none => exact sure.unchanged depth deep (view ▸ .refl _)
    | some record =>
      have rows : ∀ r, (g.row? d.session.view r).isSome → (g.row? s'.view r).isSome :=
        fun r there => view ▸ there
      dsimp only
      split
      case isTrue same =>
        exact sure.seen depth deep rows (rows _ (stored record rfl same)) (by rintro n ⟨⟩)
      case isFalse => exact sure.put depth deep rows (by rintro n ⟨⟩)

theorem begin (sure : d.Sure g) : d.begin.Sure g := by
  have holds : Certain g d.slots (d.session.log.depth + 1) d.session.view :=
    fun name slot n here since _ => sure.row? here since
  obtain ⟨s', ran, depth, deep⟩ := begin_deep Table.sameIds_stable sure.deep holds
  unfold Desk.begin
  rw [ran]
  refine ⟨deep, fun name slot n here since => ?_⟩
  show n ≤ s'.log.depth
  rw [depth]
  exact Nat.le_succ_of_le (sure.bounded name slot n here since)

/-- What is given up leaves the marks from further out. -/
theorem dropped (deep : Session.Deep (Certain g d.slots) s') :
    Sure g ({ d with session := s' }.ended false) := by
  refine ⟨deep.mono fun n e _ certain => ?_, ?_⟩
  · intro name slot m here since le
    obtain ⟨old, there, rfl⟩ := Option.map_eq_some_iff.mp here
    obtain ⟨since, -⟩ := Option.filter_eq_some_iff.mp since
    exact certain name old m there since le
  · intro name slot m here since
    obtain ⟨old, there, rfl⟩ := Option.map_eq_some_iff.mp here
    obtain ⟨-, le⟩ := Option.filter_eq_some_iff.mp since
    exact of_decide_eq_true le

/-- What is kept is from now on part of one level less. -/
theorem capped (sure : d.Sure g) (depth : s'.log.depth + 1 = d.depth)
    (same : d.session.view.SameIds s'.view)
    (deep : ∀ P', (∀ n e, n < s'.log.depth → Certain g d.slots n e → P' n e) →
      P' s'.log.depth s'.view → s'.Deep P') : Sure g ({ d with session := s' }.ended true) := by
  refine ⟨deep _ ?_ ?_, ?_⟩
  · intro n e lt certain name slot m here since le
    obtain ⟨old, found, rfl⟩ := Option.map_eq_some_iff.mp here
    obtain ⟨m, mark, rfl⟩ := Option.map_eq_some_iff.mp since
    refine certain name old m found mark ?_
    have : min s'.log.depth m ≤ n := le
    omega
  · intro name slot m here since _
    obtain ⟨old, found, rfl⟩ := Option.map_eq_some_iff.mp here
    obtain ⟨m, mark, rfl⟩ := Option.map_eq_some_iff.mp since
    have there : (g.row? d.session.view old.record).isSome := sure.row? found mark
    exact row?_of_same same old.record there
  · intro name slot m here since
    obtain ⟨old, found, rfl⟩ := Option.map_eq_some_iff.mp here
    obtain ⟨m, mark, rfl⟩ := Option.map_eq_some_iff.mp since
    exact Nat.min_le_left ..

theorem commit (sure : d.Sure g) : d.commit.Sure g := by
  obtain ⟨answer, s', ran, ⟨rfl, kept, depth, same, deep⟩ | ⟨lost, deep⟩⟩ :=
    commit_deep Table.sameIds_stable .symm sure.deep
  · unfold Desk.commit
    rw [ran]
    have kept : ((Except.ok () : Except Error Unit).isOk &&
      (s'.log.depth ≠ 0 || d.session.current)) = true := by
      simpa [Except.isOk, Except.toBool] using kept
    dsimp only
    rw [kept]
    exact sure.capped depth same deep
  · unfold Desk.commit
    rw [ran]
    have lost : (answer.isOk && (s'.log.depth ≠ 0 || d.session.current)) = false := by
      rw [Bool.eq_false_iff]
      intro kept
      apply lost
      cases answer with
      | error e => cases kept
      | ok _ => simpa [Except.isOk, Except.toBool] using kept
    dsimp only
    rw [lost]
    exact dropped deep

theorem rollback (sure : d.Sure g) : d.rollback.Sure g :=
  dropped (rollback_deep Table.sameIds_stable (fun _ _ _ same certain => certain.same same)
    sure.deep)

theorem elsewhere (sure : d.Sure g) (catalog : Catalog) : (d.elsewhere catalog).Sure g := by
  unfold Desk.elsewhere
  refine ⟨sure.deep.overtaken catalog ?_ ?_, ?_⟩
  · intro name slot m here since le
    obtain ⟨old, found, rfl⟩ := Option.map_eq_some_iff.mp here
    dsimp only at since
    split at since
    case isTrue => cases since
    case isFalse =>
      obtain ⟨m, -, rfl⟩ := Option.map_eq_some_iff.mp since
      omega
  · intro n e certain name slot m here since le
    obtain ⟨old, found, rfl⟩ := Option.map_eq_some_iff.mp here
    dsimp only at since
    split at since
    case isTrue => cases since
    case isFalse =>
      obtain ⟨m, mark, rfl⟩ := Option.map_eq_some_iff.mp since
      exact certain name old m found mark (by omega)
  · intro name slot m here since
    obtain ⟨old, found, rfl⟩ := Option.map_eq_some_iff.mp here
    dsimp only at since
    split at since
    case isTrue => cases since
    case isFalse inside =>
      obtain ⟨m, mark, rfl⟩ := Option.map_eq_some_iff.mp since
      have bound := sure.bounded name old m found mark
      show max 1 m ≤ d.depth
      omega

theorem step (made : g.Made) (sure : d.Sure g) (step : Step) : (d.step g step).Sure g := by
  cases step with
  | create name entity => exact sure.create name entity
  | set name field value => exact sure.set name field value
  | save name => exact sure.save made name
  | remove name => exact sure.remove name
  | refresh name => exact sure.refresh name
  | find name entity id => exact sure.find made name entity id
  | begin => exact sure.begin
  | commit => exact sure.commit
  | rollback => exact sure.rollback
  | elsewhere catalog => exact sure.elsewhere catalog

theorem play (made : g.Made) (sure : d.Sure g) (steps : List Step) : (d.play g steps).Sure g := by
  induction steps generalizing d with
  | nil => exact sure
  | cons step rest ih => exact ih (sure.step made step)

end Sure
end Desk

/-- Saving a record without unsaved changes does nothing. -/
theorem Registry.save_eq_of_clean {g : Registry} {r saved : Record}
    (clean : ¬ (r.isNew = true ∨ r.isDirty = true)) (ran : (g.save r).run s = (.ok saved, s')) :
    saved = r ∧ s' = s := by
  obtain ⟨new, dirty⟩ := not_or.mp clean
  obtain ⟨reg, s₁, known, ran⟩ := bind_eq_ok ran
  cases found : g.find? r.entity with
  | error e =>
    rw [found] at known
    cases known
  | ok _ =>
    rw [found] at known
    cases known
    rw [Bool.not_eq_true] at new dirty
    simp only [new, dirty] at ran
    cases ran
    exact ⟨rfl, rfl⟩

namespace Desk

variable {g : Registry} {name : String} {slot : Slot} {record : Record} {session : Session}

/-- A record that was new or had unsaved changes is stored once its save succeeds. A record that was
neither is left alone, and its row is there unless what showed it was given up or taken away
since. -/
theorem successful_save_is_stored (made : g.Made) (committed : Committed) (steps : List Step)
    (here : ((ofCommitted committed).play g steps).slots name = some slot)
    (saved : g.saveInPlace.run slot.record ((ofCommitted committed).play g steps).session =
      ((.ok (), record), session)) :
    (slot.record.isNew = true ∨ slot.record.isDirty = true → g.Stores session.view record) ∧
      (¬ (slot.record.isNew = true ∨ slot.record.isDirty = true) → record = slot.record ∧
        session = ((ofCommitted committed).play g steps).session ∧
        (slot.since.isSome → (g.row? session.view record).isSome)) := by
  have sure := (Sure.ofCommitted g committed).play made steps
  rw [g.save_keeps.run_eq g.save_mirrors sure.deep.proper] at saved
  obtain ⟨answer, s', ran, _, succeeded, _⟩ :=
    (Registry.save_stores made slot.record _).deep Table.sameIds_stable sure.deep
  rw [ran] at saved
  cases answer with
  | error e => cases saved
  | ok r' =>
    cases saved
    constructor
    · exact (succeeded record rfl).stores
    · intro clean
      obtain ⟨rfl, rfl⟩ := Registry.save_eq_of_clean clean ran
      refine ⟨rfl, rfl, fun since => ?_⟩
      obtain ⟨n, mark⟩ := Option.isSome_iff_exists.mp since
      exact sure.row? here mark

/-- A record that was saved in a transaction does not learn that this was rolled back: it counts as
stored. -/
theorem save_after_rollback_stores_nothing : ∃ slot record session,
    let desk := (ofCommitted ⟨Sample.catalog, 0⟩).play Sample.registry
      [.create "r" "t", .begin, .save "r", .rollback]
    desk.slots "r" = some slot ∧
      (Registry.saveInPlace Sample.registry).run slot.record desk.session =
        ((.ok (), record), session) ∧
      record.id = some 1 ∧ Registry.row? Sample.registry session.view record = none :=
  ⟨_, _, _, rfl, rfl, rfl, rfl⟩

/-- A rollback of a later transaction does no harm. -/
theorem successful_save_is_stored_of_two : ∃ slot record session,
    let desk := (ofCommitted ⟨Sample.catalog, 0⟩).play Sample.registry
      [.create "r" "t", .begin, .save "r", .commit, .begin, .rollback]
    desk.slots "r" = some slot ∧ slot.since = some 0 ∧
      (Registry.saveInPlace Sample.registry).run slot.record desk.session =
        ((.ok (), record), session) ∧
      (Registry.row? Sample.registry session.view record).isSome := by
  have registered : (Registry.register .empty Sample.schema).run ⟨⟨.empty, 0⟩, .idle 0, []⟩ =
    (.ok Sample.registry, _) := rfl
  have made : Registry.Made Sample.registry := .register .empty registered
  let steps : List Step := [.create "r" "t", .begin, .save "r", .commit, .begin, .rollback]
  have here : ((ofCommitted ⟨Sample.catalog, 0⟩).play Sample.registry steps).slots "r" = some _ :=
    rfl
  have settled := successful_save_is_stored made ⟨Sample.catalog, 0⟩ steps here rfl
  exact ⟨_, _, _, rfl, rfl, rfl, (settled.2 (by decide)).2.2 rfl⟩

end Desk
end RankedStore
