import LazyFields.Proofs.Laziness

/-!
Chains of updates. A record at the end of a chain has in each of its fields what was written
there last, so the other writes and their order do not matter, and the base record can be taken
out before the chain as well as after it. A script that runs a chain keeps all its records.
-/

namespace LazyFields

variable {π : Kind → Type} {σ α β ρ υ : Type} {k : Kind}

inductive A.Update
  | normalField (n : Int32)
  | lazyField (h : Handle .int)
  | copy

inductive B.Update
  | base (u : A.Update)
  | dummyField (n : Int32)

def A.update (a : A) : A.Update → A
  | .normalField n => a.withNormalField n
  | .lazyField h => a.withLazyField h
  | .copy => a

def B.update (b : B) : B.Update → B
  | .base (.normalField n) => b.withNormalField n
  | .base (.lazyField h) => b.withLazyField h
  | .base .copy => b
  | .dummyField n => b.withDummyField n

def A.updates (a : A) (us : List A.Update) : A := us.foldl A.update a

def B.updates (b : B) (us : List B.Update) : B := us.foldl B.update b

def lastWrite? (write? : υ → Option β) (us : List υ) : Option β := (us.filterMap write?).getLast?

theorem lastWrite?_cons (write? : υ → Option β) (u : υ) (us : List υ) :
    lastWrite? write? (u :: us) = (lastWrite? write? us).or (write? u) := by
  cases hu : write? u with
  | none => simp [lastWrite?, hu]
  | some x =>
    simp only [lastWrite?, List.filterMap_cons, hu, List.getLast?_cons]
    cases (us.filterMap write?).getLast? <;> rfl

theorem field_foldl {update : ρ → υ → ρ} {write? : υ → Option β} (field : ρ → β)
    (hfield : ∀ r u, field (update r u) = (write? u).getD (field r)) (us : List υ) (r : ρ) :
    field (us.foldl update r) = (lastWrite? write? us).getD (field r) := by
  induction us generalizing r with
  | nil => rfl
  | cons u us ih =>
    rw [List.foldl_cons, ih, hfield, lastWrite?_cons]
    cases lastWrite? write? us <;> rfl

namespace A

def Update.normalField? : Update → Option Int32
  | .normalField n => some n
  | _ => none

def Update.lazyField? : Update → Option (Handle .int)
  | .lazyField h => some h
  | _ => none

theorem normalField_updates (a : A) (us : List Update) :
    (a.updates us).normalField = (lastWrite? Update.normalField? us).getD a.normalField :=
  field_foldl A.normalField (fun _ u => by cases u <;> rfl) us a

theorem lazyField_updates (a : A) (us : List Update) :
    (a.updates us).lazyField = (lastWrite? Update.lazyField? us).getD a.lazyField :=
  field_foldl A.lazyField (fun _ u => by cases u <;> rfl) us a

structure Chained (a : A) (us : List Update) : Prop where
  normalField : (a.updates us).normalField =
    (lastWrite? Update.normalField? us).getD a.normalField
  lazyField : (a.updates us).lazyField = (lastWrite? Update.lazyField? us).getD a.lazyField
  determined : ∀ vs, lastWrite? Update.normalField? vs = lastWrite? Update.normalField? us →
    lastWrite? Update.lazyField? vs = lastWrite? Update.lazyField? us → a.updates vs = a.updates us

theorem chained (a : A) (us : List Update) : a.Chained us where
  normalField := a.normalField_updates us
  lazyField := a.lazyField_updates us
  determined := by
    intro vs hnormal hlazy
    have hn : (a.updates vs).normalField = (a.updates us).normalField := by
      rw [normalField_updates, normalField_updates, hnormal]
    have hl : (a.updates vs).lazyField = (a.updates us).lazyField := by
      rw [lazyField_updates, lazyField_updates, hlazy]
    generalize a.updates vs = x at hn hl
    generalize a.updates us = y at hn hl
    cases x
    cases y
    simp_all

end A

namespace B

def Update.base? : Update → Option A.Update
  | .base u => some u
  | .dummyField _ => none

def Update.dummyField? : Update → Option Int32
  | .dummyField n => some n
  | .base _ => none

def Update.normalField? (u : Update) : Option Int32 := u.base?.bind A.Update.normalField?

def Update.lazyField? (u : Update) : Option (Handle .int) := u.base?.bind A.Update.lazyField?

theorem asA_update (b : B) (u : Update) :
    (b.update u).asA = (u.base?.map b.asA.update).getD b.asA := by
  rcases u with (_ | _ | _) | _ <;> rfl

/-- Taking out the base record forgets the writes to the field that it does not have. -/
theorem asA_updates (b : B) (us : List Update) :
    (b.updates us).asA = b.asA.updates (us.filterMap Update.base?) := by
  induction us generalizing b with
  | nil => rfl
  | cons u us ih =>
    have hstep : (b.updates (u :: us)).asA = (b.update u).asA.updates (us.filterMap Update.base?) :=
      ih (b.update u)
    rw [hstep, asA_update]
    cases u <;> rfl

theorem normalField_updates (b : B) (us : List Update) :
    (b.updates us).normalField = (lastWrite? Update.normalField? us).getD b.normalField :=
  field_foldl (fun b => b.normalField) (fun _ u => by rcases u with (_ | _ | _) | _ <;> rfl) us b

theorem lazyField_updates (b : B) (us : List Update) :
    (b.updates us).lazyField = (lastWrite? Update.lazyField? us).getD b.lazyField :=
  field_foldl (fun b => b.lazyField) (fun _ u => by rcases u with (_ | _ | _) | _ <;> rfl) us b

theorem dummyField_updates (b : B) (us : List Update) :
    (b.updates us).dummyField = (lastWrite? Update.dummyField? us).getD b.dummyField :=
  field_foldl B.dummyField (fun _ u => by rcases u with (_ | _ | _) | _ <;> rfl) us b

structure Chained (b : B) (us : List Update) : Prop where
  normalField : (b.updates us).normalField =
    (lastWrite? Update.normalField? us).getD b.normalField
  dummyField : (b.updates us).dummyField = (lastWrite? Update.dummyField? us).getD b.dummyField
  lazyField : (b.updates us).lazyField = (lastWrite? Update.lazyField? us).getD b.lazyField
  lazyField_asA : (b.updates us).asA.lazyField =
    (lastWrite? Update.lazyField? us).getD b.asA.lazyField
  asA : (b.updates us).asA = b.asA.updates (us.filterMap Update.base?)
  determined : ∀ vs, lastWrite? Update.normalField? vs = lastWrite? Update.normalField? us →
    lastWrite? Update.dummyField? vs = lastWrite? Update.dummyField? us →
    lastWrite? Update.lazyField? vs = lastWrite? Update.lazyField? us → b.updates vs = b.updates us

theorem chained (b : B) (us : List Update) : b.Chained us where
  normalField := b.normalField_updates us
  dummyField := b.dummyField_updates us
  lazyField := b.lazyField_updates us
  lazyField_asA := b.lazyField_updates us
  asA := b.asA_updates us
  determined := by
    intro vs hnormal hdummy hlazy
    have hn : (b.updates vs).normalField = (b.updates us).normalField := by
      rw [normalField_updates, normalField_updates, hnormal]
    have hd : (b.updates vs).dummyField = (b.updates us).dummyField := by
      rw [dummyField_updates, dummyField_updates, hdummy]
    have hl : (b.updates vs).lazyField = (b.updates us).lazyField := by
      rw [lazyField_updates, lazyField_updates, hlazy]
    generalize b.updates vs = x at hn hd hl
    generalize b.updates us = y at hn hd hl
    obtain ⟨⟨_, _⟩, _⟩ := x
    obtain ⟨⟨_, _⟩, _⟩ := y
    simp_all

end B

namespace Script

inductive Write
  | normalField (n : Int32)
  | dummyField (n : Int32)
  | lazyField (handle : String)
  | copy

def Write.step (source name : String) : Write → Step
  | .normalField n => .withNormalField source name n
  | .dummyField n => .withDummyField source name n
  | .lazyField handle => .withLazyField source name handle
  | .copy => .clone source name

def Write.update? (s : Session) : Write → Option B.Update
  | .normalField n => some (.base (.normalField n))
  | .dummyField n => some (.dummyField n)
  | .lazyField handle =>
    match s.names[handle]? with
    | some (.handle .single .int h _) => some (.base (.lazyField h))
    | _ => none
  | .copy => some (.base .copy)

def chain : String → List (String × Write) → List Step
  | _, [] => []
  | source, (name, x) :: rest => x.step source name :: chain name rest

def Thing.update? : Thing → B.Update → Option Thing
  | .a r, .base u => some (.a (r.update u))
  | .b r, u => some (.b (r.update u))
  | _, _ => none

theorem foldlM_update?_a (a : A) (us : List A.Update) :
    (us.map B.Update.base).foldlM Thing.update? (.a a) = some (.a (a.updates us)) := by
  induction us generalizing a with
  | nil => rfl
  | cons u us ih =>
    rw [List.map_cons, List.foldlM_cons]
    exact ih (a.update u)

theorem foldlM_update?_b (b : B) (us : List B.Update) :
    us.foldlM Thing.update? (.b b) = some (.b (b.updates us)) := by
  induction us generalizing b with
  | nil => rfl
  | cons u us ih =>
    rw [List.foldlM_cons]
    exact ih (b.update u)

variable {w : World (fun _ => Recipe) Session} {source name : String} {t t' : Thing}

def Session.Extends (s s' : Session) : Prop :=
  ∀ (n : String) (t : Thing), s.names[n]? = some t → s'.names[n]? = some t

theorem Write.eq_of_update?_lazyField {s : Session} {handle : String} {u : B.Update}
    (hu : (Write.lazyField handle).update? s = some u) :
    ∃ h, (∃ recipe, s.names[handle]? = some (.handle .single .int h recipe)) ∧
      u = .base (.lazyField h) := by
  rw [Write.update?] at hu
  split at hu
  next h recipe hn => exact ⟨h, ⟨recipe, hn⟩, (Option.some.inj hu).symm⟩
  next => cases hu

theorem Session.Extends.insert {s s' : Session} (hfresh : s.names[name]? = none)
    (hnames : s'.names = s.names.insert name t) : s.Extends s' := by
  intro n x hn
  have hne : name ≠ n := by
    rintro rfl
    simp [hfresh] at hn
  simpa [hnames, Std.TreeMap.getElem?_insert, hne] using hn

theorem Write.update?_extends {s s' : Session} (h : s.Extends s') {x : Write} {u : B.Update}
    (hu : x.update? s = some u) : x.update? s' = some u := by
  cases x with
  | normalField | dummyField | copy => exact hu
  | lazyField handle =>
    obtain ⟨field, ⟨recipe, hn⟩, rfl⟩ := eq_of_update?_lazyField hu
    rw [Write.update?, h handle _ hn]

theorem exec_define (env : Environment (fun _ => Recipe) Session)
    (w : World (fun _ => Recipe) Session) (name : String) (t : Thing) :
    ∃ v w', (Job.define name t).exec env w = (.value v, w') ∧
      w'.host.names = w.host.names.insert name t := by
  have hshown : (Job.shown t).Unforcing Session.names := shown_unforcing t
  obtain ⟨p, w', hrun, huntouched⟩ := hshown.exec env { w with host := w.host.define name t }
  exact ⟨.ok p, w', Exec.bind_of_value hrun, huntouched.host⟩

theorem perform_step (env : Environment (fun _ => Recipe) Session) (name : String) {x : Write}
    {u : B.Update} (ht : w.host.names[source]? = some t) (hu : x.update? w.host = some u)
    (hupdate : t.update? u = some t') :
    (x.step source name).perform.exec env w = (Job.define name t').exec env w := by
  have hask : ∀ {α : Type} (n : String) (f : Option Thing → Job α),
      (Job.thing? n >>= f).exec env w = (f w.host.names[n]?).exec env w := fun _ _ => rfl
  cases x with
  | normalField n =>
    cases hu
    rw [Write.step, Step.perform, hask, ht]
    cases t with
    | a r => cases hupdate; rfl
    | b r => cases hupdate; rfl
    | handle | scenario => cases hupdate
  | dummyField n =>
    cases hu
    rw [Write.step, Step.perform, hask, ht]
    cases t with
    | b r => cases hupdate; rfl
    | a | handle | scenario => cases hupdate
  | copy =>
    cases hu
    rw [Write.step, Step.perform, hask, ht]
    cases t with
    | a r => cases hupdate; rfl
    | b r => cases hupdate; rfl
    | handle | scenario => cases hupdate
  | lazyField handle =>
    obtain ⟨h, ⟨recipe, hfield⟩, rfl⟩ := Write.eq_of_update?_lazyField hu
    have hrun : (Job.recordField? handle).exec env w = (.value (some h), w) := by
      rw [Job.recordField?, hask, hfield]
      rfl
    rw [Write.step, Step.perform, hask, Proc.exec_bind, Exec.bind_of_value hrun, ht]
    cases t with
    | a r => cases hupdate; rfl
    | b r => cases hupdate; rfl
    | handle | scenario => cases hupdate

theorem exec_answer (env : Environment (fun _ => Recipe) Session) (name : String) {x : Write}
    {u : B.Update} (ht : w.host.names[source]? = some t) (hu : x.update? w.host = some u)
    (hupdate : t.update? u = some t') :
    ∃ o w', (x.step source name).answer.exec env w = (.value o, w') ∧
      w'.host.names = w.host.names.insert name t' := by
  let opened := { w with host := w.host.openFrame }
  obtain ⟨v, v', hdefine, hnames⟩ := exec_define env opened name t'
  have hperform := perform_step (w := opened) env name ht hu hupdate
  have hattempt : (x.step source name).perform.attempt.exec env opened = (.value (.ok v), v') := by
    show Exec.attempt _ opened = _
    rw [Exec.attempt, hperform, hdefine]
  refine ⟨(v'.host.closeFrame v).1, { v' with host := (v'.host.closeFrame v).2 },
    Exec.bind_of_value hattempt, ?_⟩
  exact (Session.closeFrame_names v v'.host).trans hnames

/-- The session has a record to start from, and new names for the records of the chain, whose
updates are `us` once the names in them are looked up. -/
structure Chains (s : Session) (source : String) (t : Thing) (writes : List (String × Write))
    (us : List B.Update) : Prop where
  source : s.names[source]? = some t
  fresh : ∀ c ∈ writes, s.names[c.1]? = none
  distinct : (writes.map Prod.fst).Nodup
  updates : writes.map (·.2.update? s) = us.map some

theorem Chains.tail {s s' : Session} {x : Write} {rest : List (String × Write)} {u : B.Update}
    {us : List B.Update} (h : Chains s source t ((name, x) :: rest) (u :: us))
    (hnames : s'.names = s.names.insert name t') :
    s.Extends s' ∧ Chains s' name t' rest us := by
  obtain ⟨hname, hdistinct⟩ := List.nodup_cons.mp h.distinct
  obtain ⟨hu, hus⟩ := List.cons.inj h.updates
  have hextends : s.Extends s' := .insert (h.fresh _ List.mem_cons_self) hnames
  refine ⟨hextends, by simp [hnames], fun c hc => ?_, hdistinct, ?_⟩
  · have hne : name ≠ c.1 := by
      rintro rfl
      exact hname (List.mem_map.mpr ⟨c, hc, rfl⟩)
    simpa [hnames, Std.TreeMap.getElem?_insert, hne] using h.fresh c (List.mem_cons_of_mem _ hc)
  · refine (List.map_congr_left fun c hc => ?_).trans hus
    have hmem : c.2.update? s ∈ us.map some := hus ▸ List.mem_map.mpr ⟨c, hc, rfl⟩
    obtain ⟨u', -, hu'⟩ := List.mem_map.mp hmem
    rw [← hu', Write.update?_extends hextends hu'.symm]

theorem exec_chain (env : Environment (fun _ => Recipe) Session) {writes : List (String × Write)}
    {us : List B.Update} (h : Chains w.host source t writes us)
    (hupdates : (us.foldlM Thing.update? t).isSome) (acc : List Outcome) :
    ∃ outcomes w', (List.mapM.loop Step.answer (chain source writes) acc).exec env w =
        (.value outcomes, w') ∧ w.host.Extends w'.host ∧
      ∀ i name, (source :: writes.map Prod.fst)[i]? = some name →
        w'.host.names[name]? = (us.take i).foldlM Thing.update? t := by
  -- The names of the chain are new, so what a step has named the later steps do not touch.
  induction writes generalizing source t us w acc with
  | nil =>
    refine ⟨acc.reverse, w, rfl, fun _ _ hn => hn, fun i name hname => ?_⟩
    cases i with
    | zero =>
      cases hname
      exact h.source
    | succ i => cases hname
  | cons c rest ih =>
    obtain ⟨name, x⟩ := c
    cases us with
    | nil => cases h.updates
    | cons u us =>
      obtain ⟨t', hupdate⟩ : ∃ t', t.update? u = some t' := by
        rw [List.foldlM_cons] at hupdates
        cases hu : t.update? u with
        | none => simp [hu] at hupdates
        | some t' => exact ⟨t', rfl⟩
      have hfold : ∀ vs, (u :: vs).foldlM Thing.update? t = vs.foldlM Thing.update? t' := by
        intro vs
        rw [List.foldlM_cons, hupdate]
        rfl
      obtain ⟨o, v, hanswer, hnames⟩ :=
        exec_answer env name h.source (List.cons.inj h.updates).1 hupdate
      obtain ⟨hextends, hrest⟩ := h.tail hnames
      obtain ⟨outcomes, w', hrun, hextends', hall⟩ := ih hrest (hfold us ▸ hupdates) (o :: acc)
      refine ⟨outcomes, w', (Exec.bind_of_value hanswer).trans hrun,
        fun n s hn => hextends' n s (hextends n s hn), fun i n hn => ?_⟩
      cases i with
      | zero =>
        cases hn
        exact hextends' _ _ (hextends _ _ h.source)
      | succ i =>
        rw [List.take_succ_cons, hfold]
        exact hall i n hn

theorem chain_unforcing (source : String) (writes : List (String × Write)) :
    ((chain source writes).mapM Step.answer).Unforcing
      (Session.besides (writes.map Prod.fst)) := by
  refine .mapM fun s hs => ?_
  obtain ⟨hforces, hnames⟩ : s.forces = false ∧
      ∀ name, s.target? = some name → name ∈ writes.map Prod.fst := by
    induction writes generalizing source with
    | nil => cases hs
    | cons c rest ih =>
      rcases List.mem_cons.mp hs with rfl | hs
      · obtain ⟨name, x⟩ := c
        cases x <;> exact ⟨rfl, fun n hn => by cases hn; exact List.mem_cons_self⟩
      · exact ⟨(ih _ hs).1, fun n hn => List.mem_cons_of_mem _ ((ih _ hs).2 n hn)⟩
  exact s.answer_unforcing hforces hnames

/-- The chain runs through without changing anything, and in the end the name of its `i`-th
record, counted from the one that it starts from, stands for `record i`. -/
def Keeps (depth : Nat) (w : World (fun _ => Recipe) Session) (source : String)
    (writes : List (String × Write)) (record : Nat → Thing) : Prop :=
  ∃ outcomes w', host.run depth ((chain source writes).mapM Step.answer) w =
      (.value outcomes, w') ∧ w.Untouched (Session.besides (writes.map Prod.fst)) w' ∧
    ∀ i name, (source :: writes.map Prod.fst)[i]? = some name →
      w'.host.names[name]? = some (record i)

theorem Chains.keeps {writes : List (String × Write)} {us : List B.Update}
    (h : Chains w.host source t writes us) {record : Nat → Thing}
    (hrecord : ∀ i, (us.take i).foldlM Thing.update? t = some (record i)) (depth : Nat) :
    Keeps depth w source writes record := by
  have hupdates : us.foldlM Thing.update? t = some (record us.length) := by
    simpa using hrecord us.length
  obtain ⟨outcomes, w', hrun, -, hall⟩ :=
    exec_chain (host.environment depth) h (by simp [hupdates]) []
  obtain ⟨outcomes', v, hrun', huntouched⟩ :=
    (chain_unforcing source writes).exec (host.environment depth) w
  obtain rfl : w' = v := congrArg Prod.snd (hrun.symm.trans hrun')
  exact ⟨outcomes, w', hrun, huntouched, fun i name hn => (hall i name hn).trans (hrecord i)⟩

end Script

open Script

/-- Chains of updates write fields and do nothing else, whatever has happened to the lazy fields
in them: of a record, of an extended record, and in a script that keeps all of its records. -/
theorem updates_write_last :
    (∀ (a : A) (us : List A.Update), a.Chained us) ∧
      (∀ (b : B) (us : List B.Update), b.Chained us) ∧
      ∀ (depth : Nat) (w : World (fun _ => Recipe) Session) (source : String)
        (writes : List (String × Write)),
        (∀ (a : A) (us : List A.Update), Chains w.host source (.a a) writes (us.map .base) →
          Keeps depth w source writes fun i => .a (a.updates (us.take i))) ∧
        ∀ (b : B) (us : List B.Update), Chains w.host source (.b b) writes us →
          Keeps depth w source writes fun i => .b (b.updates (us.take i)) := by
  refine ⟨A.chained, B.chained, fun depth w source writes => ⟨fun a us h => ?_, fun b us h => ?_⟩⟩
  · refine h.keeps (fun i => ?_) depth
    rw [← List.map_take, foldlM_update?_a]
  · exact h.keeps (fun i => foldlM_update?_b b (us.take i)) depth

def Script.Session.withRecords : Session :=
  ((Session.start false).define "field" (.handle .single .int ⟨1⟩ none)
    |>.define "a" (.a { normalField := 1, lazyField := ⟨0⟩ })).define "b"
      (.b { normalField := 1, lazyField := ⟨0⟩, dummyField := 2 })

def Script.Write.thrice : List (String × Write) :=
  [("first", .normalField 5), ("second", .lazyField "field"), ("third", .copy)]

def A.Update.thrice : List A.Update := [.normalField 5, .lazyField ⟨1⟩, .copy]

theorem updates_write_last_thrice :
    let a : A := { normalField := 1, lazyField := ⟨0⟩ }
    let b : B := { normalField := 1, lazyField := ⟨0⟩, dummyField := 2 }
    let us := A.Update.thrice.map .base
    (Chains .withRecords "a" (.a a) Write.thrice us ∧
        Keeps 0 (.start .withRecords) "a" Write.thrice fun i =>
          .a (a.updates (A.Update.thrice.take i))) ∧
      Chains .withRecords "b" (.b b) Write.thrice us ∧
        Keeps 0 (.start .withRecords) "b" Write.thrice fun i => .b (b.updates (us.take i)) := by
  intro a b us
  have hchain : ∀ source t, Session.withRecords.names[source]? = some t →
      Chains .withRecords source t Write.thrice us := by
    intro source t hsource
    refine ⟨hsource, ?_, ?_, ?_⟩
    · simp [Write.thrice, Session.withRecords, Session.define, Session.start,
        Std.TreeMap.getElem?_insert]
    · decide
    · simp [Write.thrice, Session.withRecords, Session.define, Session.start, Write.update?,
        Std.TreeMap.getElem?_insert, us, A.Update.thrice]
  have ha : Chains .withRecords "a" (.a a) Write.thrice us :=
    hchain _ _ (by simp [Session.withRecords, Session.define, Std.TreeMap.getElem_insert, a])
  have hb : Chains .withRecords "b" (.b b) Write.thrice us :=
    hchain _ _ (by simp [Session.withRecords, Session.define, b])
  have hkeeps := updates_write_last.2.2 0 (.start .withRecords)
  exact ⟨⟨ha, (hkeeps "a" Write.thrice).1 a _ ha⟩, hb, (hkeeps "b" Write.thrice).2 b _ hb⟩

end LazyFields
