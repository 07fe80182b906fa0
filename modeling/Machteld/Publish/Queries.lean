import Machteld.Publish.Names

namespace Machteld

open Publish Host PublishWorld

variable {Path : Type} [DecidableEq Path]

abbrev PublishEnsures (others : Bool) (meets : PublishCall Path → PublishChoice → PublishWorld Path → Bool)
    (always : PublishWorld Path → Prop) {α : Type} (p : PublishProg Path α) (post : α → PublishWorld Path → Prop)
    (w : PublishWorld Path) : Prop :=
  (publishHost others meets).Ensures always p post w

/-- A fact that the other processes cannot change, with what holds always.
-/
structure PublishStable (others : Bool) (meets : PublishCall Path → PublishChoice → PublishWorld Path → Bool)
    (always I : PublishWorld Path → Prop) : Prop where
  moves : ∀ m w v, I w → (publishHost others meets).move m w = some v → I v
  inside : ∀ w, I w → always w

/-- A fact that looking at files does not change, from a handle on. -/
structure PublishHarmless (others : Bool) (meets : PublishCall Path → PublishChoice → PublishWorld Path → Bool)
    (always : PublishWorld Path → Prop) (first : Nat) (I : PublishWorld Path → Prop) : Prop
    extends PublishStable others meets always I where
  fresh : ∀ w, I w → first ≤ w.nextHandle
  opened : ∀ w path f, I w → w.names path = some f → I (w.opened path f)
  closed : ∀ w h, I w → first ≤ h → I (w.closed h)
  writable : ∀ w f, I w → I (w.writable f)

/-- Whatever file a handle has is this one. -/
def PublishWorld.Holds (w : PublishWorld Path) (h : Nat) (f : FileId) : Prop :=
  ∀ g p, w.handles h = some (g, p) → g = f

/-- Every number that is known of a file is its own. -/
structure PublishIdentity.Of (identity : PublishIdentity) (f : FileId) : Prop where
  extended : ∀ r, identity.extended = some r → r.2 = f
  legacy : ∀ r, identity.legacy = some r → r.2 = f

/-- Equal identities are of one file, as far as both were read of a file. -/
theorem sameIdentityValue_of {left right : PublishIdentity} {f g : FileId}
    (same : sameIdentityValue left right = true)
    (ofLeft : left.Of f) (ofRight : right.Of g) : f = g := by
  unfold sameIdentityValue at same
  split at same
  · next l r leftKnown rightKnown =>
    rw [← ofLeft.extended l leftKnown, ← ofRight.extended r rightKnown]
    exact beq_iff_eq.mp (Bool.and_eq_true_iff.mp same).2
  · split at same
    · next l r leftKnown rightKnown =>
      rw [← ofLeft.legacy l leftKnown, ← ofRight.legacy r rightKnown]
      exact beq_iff_eq.mp (Bool.and_eq_true_iff.mp same).2
    · cases same

variable {others : Bool} {meets : PublishCall Path → PublishChoice → PublishWorld Path → Bool}
  {always I : PublishWorld Path → Prop}
  {w v u : PublishWorld Path} {first h : Nat} {f : FileId}

theorem publishHost_move {m : PublishMove Path} (moves : (publishHost others meets).move m w = some v) :
    others = true ∧ publishMove m w = some v := by
  simp only [publishHost] at moves
  split_ifs at moves with alone
  exact ⟨alone, moves⟩

theorem publishHost_act {c : PublishCall Path} {choice : PublishChoice} {a : c.Answer}
    (acts : (publishHost others meets).act c choice w = some (a, v)) :
    meets c choice w = true ∧ publishAct c choice w = some (a, v) := by
  simp only [publishHost] at acts
  split_ifs at acts with allowed
  exact ⟨allowed, acts⟩

theorem Holds.moves {m : PublishMove Path} (holds : w.Holds h f) (moves : publishMove m w = some v) :
    v.Holds h f := by
  intro g q later
  obtain ⟨p, before, -⟩ := publishMove_file moves later
  exact holds g p before

omit [DecidableEq Path] in
theorem Holds.opened (holds : w.Holds h f) (older : h < w.nextHandle) (path : Path) (g : FileId) :
    (w.opened path g).Holds h f := by
  intro k q later
  simp only [PublishWorld.opened, Function.update_of_ne (Nat.ne_of_lt older)] at later
  exact holds k q later

omit [DecidableEq Path] in
theorem Holds.closed (holds : w.Holds h f) (k : Nat) : (w.closed k).Holds h f := by
  intro g q later
  by_cases same : h = k
  · subst same
    simp only [PublishWorld.closed, Function.update_self] at later
    cases later
  · simp only [PublishWorld.closed, Function.update_of_ne same] at later
    exact holds g q later

theorem Holds.removed (holds : w.Holds h f) (path : Path) : (w.remove path).Holds h f := by
  intro g q later
  obtain ⟨p, before, -⟩ := remove_file later
  exact holds g p before

theorem Holds.renamed (holds : w.Holds h f) (source target : Path) : (w.rename source target).Holds h f := by
  intro g q later
  obtain ⟨p, before, -⟩ := rename_file later
  exact holds g p before

namespace PublishStable

variable {α : Type}

theorem done (stable : PublishStable others meets always I) {a : α}
    {post : α → PublishWorld Path → Prop} (start : I w)
    (wanted : ∀ v, I v → post a v) : PublishEnsures others meets always (Pure.pure a) post w :=
  Ensures.pure stable.moves stable.inside start wanted

theorem ask (stable : PublishStable others meets always I) {c : PublishCall Path}
    {k : c.Answer → PublishProg Path α} {post : α → PublishWorld Path → Prop} (start : I w)
    (answered : ∀ choice a v u, I v → meets c choice v = true → publishAct c choice v = some (a, u) →
      PublishEnsures others meets always (k a) post u) :
    PublishEnsures others meets always (Prog.ask c >>= k) post w :=
  Ensures.ask stable.moves stable.inside start fun choice a v u holds acts =>
    answered choice a v u holds (publishHost_act acts).1 (publishHost_act acts).2

/-- A call that is the last of its program. -/
theorem last (stable : PublishStable others meets always I) {c : PublishCall Path}
    {post : c.Answer → PublishWorld Path → Prop}
    (start : I w) (answered : ∀ choice a v u, I v → meets c choice v = true → publishAct c choice v = some (a, u) →
      I u ∧ ∀ x, I x → post a x) : PublishEnsures others meets always (Prog.ask c) post w :=
  stable.ask (k := Prog.done) start fun choice a v u holds allowed acts =>
    have ends := answered choice a v u holds allowed acts
    stable.done ends.1 ends.2

end PublishStable

/-- The calls that change nothing. -/
inductive PublishCall.Looks : PublishCall Path → Prop
  | type {h : Nat} : Looks (.getFileType h)
  | information {h : Nat} : Looks (.getFileInformation h)
  | tag {h : Nat} : Looks (.getAttributeTag h)
  | id {h : Nat} : Looks (.getFileIdInfo h)
  | basic {h : Nat} : Looks (.getBasicInfo h)
  | random : Looks .genRandom
  | memory : Looks .malloc

/-- A call that only looks changes nothing. -/
theorem PublishCall.Looks.still {c : PublishCall Path} (looks : Looks c) {choice : PublishChoice} {a : c.Answer}
    (acts : publishAct c choice w = some (a, v)) : v = w := by
  cases looks <;>
  · simp only [publishAct] at acts
    split at acts
    · exact (Prod.mk.inj (Option.some.inj acts)).2.symm
    · exact (Prod.mk.inj (Option.some.inj acts)).2.symm
    · cases acts

/-- What is told of a handle is told of the file it holds. -/
theorem getFileInformation_of {choice : PublishChoice} {attrs : FileAttrs} {volume : Nat} {g : FileId}
    (acts : publishAct (.getFileInformation h) choice w = some (.ok (attrs, volume, g), v)) (holds : w.Holds h f) :
    g = f := by
  simp only [publishAct] at acts
  split at acts
  · next k p open' =>
    obtain ⟨same, -⟩ := Prod.mk.inj (Option.some.inj acts)
    obtain ⟨-, same⟩ := Prod.mk.inj (Except.ok.inj same)
    obtain ⟨-, rfl⟩ := Prod.mk.inj same
    exact holds k p open'
  · cases acts
  · cases acts

theorem getFileIdInfo_of {choice : PublishChoice} {r : Nat × FileId}
    (acts : publishAct (.getFileIdInfo h) choice w = some (.ok r, v)) (holds : w.Holds h f) : r.2 = f := by
  simp only [publishAct] at acts
  split at acts
  · next k p open' =>
    obtain ⟨same, -⟩ := Prod.mk.inj (Option.some.inj acts)
    obtain rfl := Except.ok.inj same
    exact holds k p open'
  · cases acts
  · cases acts

namespace PublishStable

variable (stable : PublishStable others meets always I)

include stable

/-- A call that only looks may be put before any rest that keeps the invariant;
the answer may be used, and nothing has changed meanwhile but by other programs.
-/
theorem look {α : Type} {c : PublishCall Path} (looks : c.Looks) {next : c.Answer → PublishProg Path α}
    {post : α → PublishWorld Path → Prop} (start : I w)
    (answered : ∀ choice a v, I v → publishAct c choice v = some (a, v) →
      PublishEnsures others meets always (next a) post v) :
    PublishEnsures others meets always (Prog.ask c >>= next) post w :=
  stable.ask start fun choice a v u holds _ acts => by
    obtain rfl := looks.still acts
    exact answered choice a u holds acts

/-- What is found out about a handle is about its file. -/
theorem queryHandle (start : I w) :
    PublishEnsures others meets always (queryHandle h) (fun r u => I u ∧
      ∀ info f, r = .ok info → (∀ v, I v → v.Holds h f) → info.identity.Of f) w := by
  have fails : ∀ e v, I v → PublishEnsures others meets always (Pure.pure (.error e : Except Nat PublishFileInfo))
      (fun r u => I u ∧ ∀ info f, r = .ok info → (∀ v, I v → v.Holds h f) → info.identity.Of f) v :=
    fun e v start => stable.done start fun u holds => ⟨holds, fun info f same => by cases same⟩
  refine stable.look (.type (h := h)) start fun _ disk v holds _ => ?_
  refine stable.look (.information (h := h)) holds fun legacyChoice legacy v legacyHolds legacyActs => ?_
  refine stable.look (.tag (h := h)) legacyHolds fun _ tag u holds _ => ?_
  cases legacy with
  | error e =>
    cases tag with
    | error e => exact fails e u holds
    | ok attributes =>
      refine stable.look (.id (h := h)) holds fun choice extended x holds acts => ?_
      cases extended with
      | error e => exact fails e x holds
      | ok extended =>
        refine stable.done holds fun y later => ⟨later, fun info f same known => ?_⟩
        obtain rfl := Except.ok.inj same
        refine ⟨fun r same => ?_, nofun⟩
        obtain rfl := Option.some.inj same
        exact getFileIdInfo_of acts (known x holds)
  | ok legacy =>
    obtain ⟨attributes, volume, g⟩ := legacy
    refine stable.look (.id (h := h)) holds fun choice extended x holds acts => ?_
    refine stable.done holds fun y later => ⟨later, fun info f same known => ?_⟩
    obtain rfl := Except.ok.inj same
    refine ⟨fun r same => ?_, fun r same => ?_⟩
    · cases extended with
      | error e => cases same
      | ok extended =>
        obtain rfl := Option.some.inj same
        exact getFileIdInfo_of acts (known x holds)
    · obtain rfl := Option.some.inj same
      exact getFileInformation_of legacyActs (known v legacyHolds)

end PublishStable

end Machteld
