import Machteld.Run
import Machteld.Store.Command

namespace Machteld

/-- An error of SQLite. -/
def StoreReply.Broken (reply : StoreReply) : Prop := ∃ message, reply = .error (storeError "sqlite" message)

/-- Whether the code of an error is that of SQLite. -/
def StoreReply.broken : StoreReply → Bool
  | error err => err.errorcode == (storeError "sqlite" []).errorcode
  | _ => false

theorem StoreReply.Broken.broken {reply : StoreReply} (broken : reply.Broken) : reply.broken = true := by
  obtain ⟨message, rfl⟩ := broken
  exact beq_self_eq_true _

/-- What is open: a table of its own, or that of a file. -/
inductive StoreOpened
  | memory (t : StoreTable)
  | file (file : Bytes)

/-- What `store` is to its users: the file each path names, a table for each
file, and what is open. -/
structure StoreModel where
  name : Bytes → Bytes
  files : Bytes → StoreTable
  opened : Option StoreOpened

namespace StoreModel

def close (m : StoreModel) : StoreModel := { m with opened := none }

def openAt (m : StoreModel) (path : Bytes) : StoreModel :=
  { m with opened := some (if path = memoryPath then .memory ∅ else .file (m.name path)) }

def table (m : StoreModel) : StoreOpened → StoreTable
  | .memory t => t
  | .file file => m.files file

def change (m : StoreModel) (f : StoreTable → StoreTable) : StoreOpened → StoreModel
  | .memory t => { m with opened := some (.memory (f t)) }
  | .file file => { m with files := Function.update m.files file (f (m.files file)), opened := some (.file file) }

/-- What a command needs a database for. -/
def Needs (m : StoreModel) (reply : StoreReply) (m' : StoreModel) (served : StoreOpened → Prop) : Prop :=
  m.opened.elim (reply = notOpen ∧ m' = m) served

end StoreModel

/-- What each request may be answered with, and what becomes of the tables.
-/
def StoreServes (libversion : Bytes) (m : StoreModel) : StoreRequest → StoreReply → StoreModel → Prop
  | .refused refusal, reply, m' => reply = refusal ∧ m' = m
  | .version, reply, m' => reply = .text libversion ∧ m' = m
  | .openAt path, reply, m' => reply.Broken ∧ m' = m.close ∨ reply = .empty ∧ m' = m.openAt path
  | .put key value, reply, m' => m.Needs reply m' fun o =>
    reply.Broken ∧ m' = m ∨ (reply.Broken ∨ reply = .empty) ∧
      m' = m.change (fun t => t.insert key value.valueBytes) o
  | .get key, reply, m' => m.Needs reply m' fun o =>
    (reply.Broken ∨ reply = ((m.table o)[key]?).elim storeMissing .binary) ∧ m' = m
  | .keys, reply, m' => m.Needs reply m' fun o => (reply.Broken ∨ reply = .words (m.table o).keys) ∧ m' = m
  | .del key, reply, m' => m.Needs reply m' fun o =>
    reply.Broken ∧ m' = m ∨
      (reply.Broken ∨ reply = .count (if (m.table o).contains key then 1 else 0)) ∧
        m' = m.change (fun t => t.erase key) o
  | .close, reply, m' => reply = .empty ∧ m' = m.close

/-- One request after another. -/
abbrev StoreServed (libversion : Bytes) (m : StoreModel) (t : List (StoreRequest × StoreReply))
    (m' : StoreModel) : Prop :=
  RunAllows (fun m e m' => StoreServes libversion m e.1 e.2 m') m t m'

/-- A request that opens or closes. -/
def StoreRequest.moves : StoreRequest → Bool
  | openAt _ => true
  | close => true
  | _ => false

/-- A request that may change what a key has. -/
def StoreRequest.touches (key : Bytes) : StoreRequest → Bool
  | put other _ => other == key
  | del other => other == key
  | _ => false

/-- Nothing is opened or closed meanwhile. -/
def Stays (t : List (StoreRequest × StoreReply)) : Prop := ∀ e ∈ t, e.1.moves = false

def Untouched (key : Bytes) (t : List (StoreRequest × StoreReply)) : Prop := ∀ e ∈ t, e.1.touches key = false

/-- A request that makes an object of Tcl for its result. -/
def StoreRequest.reads : StoreRequest → Bool
  | get _ => true
  | keys => true
  | _ => false

/-- What the answer to a request tells about a key. -/
inductive StoreTold (key : Bytes) : StoreRequest → StoreReply → Option Bytes → Prop
  | put (value : TclValue) : StoreTold key (.put key value) .empty (some value.valueBytes)
  | del (n : Nat) : StoreTold key (.del key) (.count n) none
  | get (b : Bytes) : StoreTold key (.get key) (.binary b) (some b)
  | missing : StoreTold key (.get key) storeMissing none

/-- The answers that go with what a key has, unless SQLite fails. -/
def StoreAgrees (key : Bytes) (known : Option Bytes) (request : StoreRequest) (reply : StoreReply) : Prop :=
  match request with
  | .get other => other = key → reply.Broken ∨ reply = known.elim storeMissing .binary
  | .del other => other = key → reply.Broken ∨ reply = .count (if known.isSome then 1 else 0)
  | .keys => reply.Broken ∨ ∃ l, reply = .words l ∧ (key ∈ l ↔ known.isSome = true)
  | _ => True

/-- What the users of `store` may rely on: as long as a key is not touched,
all that is answered agrees with what was told last of it, in a file even
when other databases were open meanwhile and another path names it; in a new
`:memory:` there is nothing; and the keys are listed in their order, each
once. -/
structure StoreTells (name : Bytes → Bytes) (t : List (StoreRequest × StoreReply)) : Prop where
  here : ∀ before told key known middle asked after, t = before ++ told :: (middle ++ asked :: after) →
    StoreTold key told.1 told.2 known → Stays middle → Untouched key middle → StoreAgrees key known asked.1 asked.2
  file : ∀ before path first told key known between again last asked after,
    t = before ++ (.openAt path, .empty) :: (first ++ told ::
      (between ++ (.openAt again, .empty) :: (last ++ asked :: after))) →
      path ≠ memoryPath → again ≠ memoryPath → name again = name path → Stays first →
        StoreTold key told.1 told.2 known →
      Stays last → Untouched key between → Untouched key last → StoreAgrees key known asked.1 asked.2
  fresh : ∀ before key middle asked after, t = before ++ (.openAt memoryPath, .empty) ::
    (middle ++ asked :: after) →
    Stays middle → Untouched key middle → StoreAgrees key none asked.1 asked.2
  keys : ∀ l, (.keys, .words l) ∈ t → l.Pairwise fun a b => compare a b = .lt
  close : ∀ reply, (.close, reply) ∈ t → reply = .empty

/-- What a key has in what is open. -/
def StoreModel.look (m : StoreModel) (key : Bytes) : Option (Option Bytes) :=
  m.opened.map fun o => (m.table o)[key]?

section

variable {libversion : Bytes} {m m' : StoreModel} {request : StoreRequest} {reply : StoreReply}
  {key path file : Bytes}
  {t : List (StoreRequest × StoreReply)}

theorem insert_other {other value : Bytes} (different : (other == key) = false) (t : StoreTable) :
    (t.insert other value)[key]? = t[key]? := by
  rw [Std.TreeMap.getElem?_insert, if_neg fun same => beq_eq_false_iff_ne.mp different
    (Std.LawfulEqOrd.compare_eq_iff_eq.mp same)]

theorem erase_other {other : Bytes} (different : (other == key) = false) (t : StoreTable) :
    (t.erase other)[key]? = t[key]? := by
  rw [Std.TreeMap.getElem?_erase, if_neg fun same => beq_eq_false_iff_ne.mp different
    (Std.LawfulEqOrd.compare_eq_iff_eq.mp same)]

/-- What needs a database is refused, or there is one. -/
theorem StoreModel.Needs.cases {good : StoreOpened → Prop} (needs : m.Needs reply m' good) :
    (reply = notOpen ∧ m' = m) ∨ ∃ o, m.opened = some o ∧ good o := by
  rw [StoreModel.Needs] at needs
  cases opened : m.opened with
  | none =>
    rw [opened] at needs
    exact .inl needs
  | some o =>
    rw [opened] at needs
    exact .inr ⟨o, rfl, needs⟩

/-- All that a request can do: nothing, open or close something, or change
what is open where it touches a key. -/
theorem StoreServes.step (served : StoreServes libversion m request reply m') : m' = m ∨
    (request.moves = true ∧ m'.files = m.files ∧ m'.name = m.name) ∨ ∃ o f, m.opened = some o ∧ m' = m.change f o ∧
      ∀ key, request.touches key = false → ∀ t : StoreTable, (f t)[key]? = t[key]? := by
  cases request with
  | refused _ => exact .inl served.2
  | version => exact .inl served.2
  | openAt path =>
    rcases served with ⟨-, rfl⟩ | ⟨-, rfl⟩
    · exact .inr (.inl ⟨rfl, rfl, rfl⟩)
    · exact .inr (.inl ⟨rfl, rfl, rfl⟩)
  | put other value =>
    rcases StoreModel.Needs.cases served with ⟨-, same⟩ | ⟨o, opened, ⟨-, same⟩ | ⟨-, same⟩⟩
    · exact .inl same
    · exact .inl same
    · exact .inr (.inr ⟨o, _, opened, same, fun _ different => insert_other different⟩)
  | get key =>
    rcases StoreModel.Needs.cases served with ⟨-, same⟩ | ⟨o, -, -, same⟩
    · exact .inl same
    · exact .inl same
  | keys =>
    rcases StoreModel.Needs.cases served with ⟨-, same⟩ | ⟨o, -, -, same⟩
    · exact .inl same
    · exact .inl same
  | del other =>
    rcases StoreModel.Needs.cases served with ⟨-, same⟩ | ⟨o, opened, ⟨-, same⟩ | ⟨-, same⟩⟩
    · exact .inl same
    · exact .inl same
    · exact .inr (.inr ⟨o, _, opened, same, fun _ different => erase_other different⟩)
  | close => exact .inr (.inl ⟨rfl, served.2 ▸ rfl, served.2 ▸ rfl⟩)

theorem StoreModel.change_table (m : StoreModel) (f : StoreTable → StoreTable) (o : StoreOpened) :
    (m.change f o).look key = some (f (m.table o))[key]? := by
  cases o with
  | memory t => rfl
  | file file =>
    change some (Function.update m.files file (f (m.files file)) file)[key]? = _
    rw [Function.update_self]
    rfl

theorem StoreModel.change_name (m : StoreModel) (f : StoreTable → StoreTable) (o : StoreOpened) :
    (m.change f o).name = m.name := by
  cases o <;> rfl

/-- A path goes on naming its file. -/
theorem StoreServes.name (served : StoreServes libversion m request reply m') : m'.name = m.name := by
  rcases served.step with rfl | ⟨-, -, name⟩ | ⟨o, f, -, rfl, -⟩
  · rfl
  · exact name
  · exact m.change_name f o

/-- A request that does not touch a key leaves what is stored under it. -/
theorem StoreServes.look (served : StoreServes libversion m request reply m') (stays : request.moves = false)
    (untouched : request.touches key = false) : m'.look key = m.look key := by
  rcases served.step with rfl | ⟨moves, -⟩ | ⟨o, f, opened, rfl, others⟩
  · rfl
  · rw [stays] at moves
    cases moves
  · rw [m.change_table, others key untouched, StoreModel.look, opened]
    rfl

/-- The same for the table of each file. -/
theorem StoreServes.keeps_file (served : StoreServes libversion m request reply m')
    (untouched : request.touches key = false) :
    (m'.files file)[key]? = (m.files file)[key]? := by
  rcases served.step with rfl | ⟨-, files, -⟩ | ⟨o, f, opened, rfl, others⟩
  · rfl
  · rw [files]
  · cases o with
    | memory t => rfl
    | file other =>
      change (Function.update m.files other (f (m.files other)) file)[key]? = _
      by_cases same : file = other
      · rw [same, Function.update_self, others key untouched]
      · rw [Function.update_of_ne same]

/-- A file that is open stays open where no request moves. -/
theorem StoreServes.opened (served : StoreServes libversion m request reply m') (stays : request.moves = false)
    (opened : m.opened = some (.file file)) : m'.opened = some (.file file) := by
  rcases served.step with rfl | ⟨moves, -⟩ | ⟨o, f, opened', rfl, -⟩
  · exact opened
  · rw [stays] at moves
    cases moves
  · obtain rfl : o = .file file := Option.some.inj (opened'.symm.trans opened)
    rfl

namespace StoreServed

theorem name (served : StoreServed libversion m t m') : m'.name = m.name :=
  served.keeps (K := fun n => n.name = m.name) (fun _ _ _ _ here known => here.name.trans known) rfl

theorem look {known : Option (Option Bytes)} (served : StoreServed libversion m t m') (stays : Stays t)
    (untouched : Untouched key t)
    (now : m.look key = known) : m'.look key = known :=
  served.keeps (fun e member _ _ here known => (here.look (stays e member) (untouched e member)).trans known) now

end StoreServed

/-- What is answered agrees with what there is. -/
theorem StoreServes.agrees {known : Option Bytes} (served : StoreServes libversion m request reply m')
    (now : m.look key = some known) : StoreAgrees key known request reply := by
  have needs : ∀ {good : StoreOpened → Prop}, m.Needs reply m' good → ∃ o, (m.table o)[key]? = known ∧ good o := by
    intro good needs
    obtain ⟨o, opened, same⟩ := Option.map_eq_some_iff.mp now
    rw [StoreModel.Needs, opened] at needs
    exact ⟨o, same, needs⟩
  cases request with
  | get other =>
    rintro rfl
    obtain ⟨o, same, told, -⟩ := needs served
    rwa [same] at told
  | del other =>
    rintro rfl
    obtain ⟨o, same, told⟩ := needs served
    rw [Std.TreeMap.contains_eq_isSome_getElem?, same] at told
    exact told.elim (fun failed => .inl failed.1) And.left
  | keys =>
    obtain ⟨o, same, told, -⟩ := needs served
    refine told.imp id fun listed => ⟨_, listed, ?_⟩
    rw [Std.TreeMap.mem_keys, Std.TreeMap.mem_iff_isSome_getElem?, same]
  | refused _ => trivial
  | version => trivial
  | openAt _ => trivial
  | put _ _ => trivial
  | close => trivial

/-- What the open table has of a key is seen, and is in the file of the
table. -/
theorem StoreModel.seen {o : StoreOpened} {known : Option Bytes} (opened : m.opened = some o)
    (has : (m.table o)[key]? = known) :
    m.look key = some known ∧ ∀ file, m.opened = some (.file file) → (m.files file)[key]? = known := by
  refine ⟨by rw [StoreModel.look, opened, Option.map_some, has], fun file same => ?_⟩
  obtain rfl : o = .file file := Option.some.inj (opened.symm.trans same)
  exact has

/-- So is what a change of the table leaves of it. -/
theorem StoreModel.change_seen {o : StoreOpened} {f : StoreTable → StoreTable} {known : Option Bytes}
    (opened : m.opened = some o) (has : ∀ t : StoreTable, (f t)[key]? = known) :
    (m.change f o).look key = some known ∧
      ∀ file, m.opened = some (.file file) → ((m.change f o).files file)[key]? = known := by
  refine ⟨by rw [m.change_table, has], fun file same => ?_⟩
  obtain rfl : o = .file file := Option.some.inj (opened.symm.trans same)
  change (Function.update m.files file _ file)[key]? = _
  rw [Function.update_self, has]

/-- What was told is there behind it, in its file too. -/
theorem StoreServes.told {known : Option Bytes} (served : StoreServes libversion m request reply m')
    (told : StoreTold key request reply known) :
    m'.look key = some known ∧ ∀ file, m.opened = some (.file file) → (m'.files file)[key]? = known := by
  cases told with
  | put value =>
    rcases StoreModel.Needs.cases served with ⟨refused, -⟩ | ⟨o, opened, ⟨⟨_, none'⟩, -⟩ | ⟨-, rfl⟩⟩
    · cases refused
    · cases none'
    · exact StoreModel.change_seen opened fun t => Std.TreeMap.getElem?_insert_self
  | del n =>
    rcases StoreModel.Needs.cases served with ⟨refused, -⟩ | ⟨o, opened, ⟨⟨_, none'⟩, -⟩ | ⟨-, rfl⟩⟩
    · cases refused
    · cases none'
    · exact StoreModel.change_seen opened fun t => Std.TreeMap.getElem?_erase_self
  | get b =>
    rcases StoreModel.Needs.cases served with ⟨refused, -⟩ | ⟨o, opened, ⟨_, none'⟩ | same, rfl⟩
    · cases refused
    · cases none'
    · refine StoreModel.seen opened ?_
      cases has : (m'.table o)[key]? with
      | none =>
        rw [has] at same
        cases same
      | some b' =>
        rw [has] at same
        rw [StoreReply.binary.inj same]
  | missing =>
    rcases StoreModel.Needs.cases served with ⟨refused, -⟩ | ⟨o, opened, broken | same, rfl⟩
    · exact absurd (congrArg TclError.errorcode (StoreReply.error.inj refused)) (by decide)
    · exact absurd broken.broken (by decide)
    · refine StoreModel.seen opened ?_
      cases has : (m'.table o)[key]? with
      | none => rfl
      | some b' =>
        rw [has] at same
        cases same

theorem StoreServes.openAt (served : StoreServes libversion m (.openAt path) .empty m')
    (other : path ≠ memoryPath) :
    m'.opened = some (.file (m.name path)) ∧ m'.files = m.files := by
  rcases served with ⟨⟨_, none'⟩, -⟩ | ⟨-, rfl⟩
  · cases none'
  · exact ⟨by rw [StoreModel.openAt, if_neg other], rfl⟩

theorem StoreServes.fresh (served : StoreServes libversion m (.openAt memoryPath) .empty m') :
    m'.look key = some none := by
  rcases served with ⟨⟨_, none'⟩, -⟩ | ⟨-, rfl⟩
  · cases none'
  · rw [StoreModel.openAt, if_pos rfl, StoreModel.look, Option.map_some, StoreModel.table,
      Std.TreeMap.getElem?_emptyc]

/-- What a session tells of a key, from the steps between a request and the
next one about that key; each part is one fact kept along the run. -/
theorem StoreServed.tells (served : StoreServed libversion m t m') : StoreTells m.name t where
  here before told key known middle asked after split' tells stays untouched := by
    subst split'
    obtain ⟨n, -, u, here, rest⟩ := served.append
    obtain ⟨v, middle, _, last, -⟩ := rest.append
    exact last.agrees (StoreServed.look middle stays untouched (here.told tells).1)
  file before path first told key known between again last asked after split' other other' same firstStays tells
    lastStays between'
      last' := by
    subst split'
    obtain ⟨n, start, n₁, opens, rest⟩ := served.append
    obtain ⟨n₂, first, n₃, here, rest⟩ := rest.append
    obtain ⟨n₄, between, n₅, reopens, rest⟩ := rest.append
    obtain ⟨n₆, last, _, answered, -⟩ := rest.append
    have opened := first.keeps (K := fun m => m.opened = some (.file (n.name path)))
      (fun e member _ _ step known => step.opened (firstStays e member) known) (opens.openAt other).1
    have stored := between.keeps (K := fun m => (m.files (n.name path))[key]? = known)
      (fun e member _ _ step known => (step.keeps_file (between' e member)).trans known)
        ((here.told tells).2 _ opened)
    obtain ⟨now, files⟩ := reopens.openAt other'
    have named : n₄.name again = n.name path := by
      rw [StoreServed.name between, here.name, StoreServed.name first, opens.name, StoreServed.name start, same]
    have look : n₅.look key = some known := by
      rw [StoreModel.look, now, Option.map_some, StoreModel.table, files, named, stored]
    exact answered.agrees (StoreServed.look last lastStays last' look)
  fresh before key middle asked after split' stays untouched := by
    subst split'
    obtain ⟨n, -, u, opens, rest⟩ := served.append
    obtain ⟨v, middle, _, last, -⟩ := rest.append
    exact last.agrees (StoreServed.look middle stays untouched opens.fresh)
  keys l member := by
    obtain ⟨n, n', here⟩ := served.mem member
    change n.opened.elim _ _ at here
    cases opened : n.opened with
    | none =>
      rw [opened] at here
      cases here.1
    | some o =>
      rw [opened] at here
      rcases here with ⟨⟨_, none'⟩ | same, -⟩
      · cases none'
      · rw [StoreReply.words.inj same]
        exact Std.TreeMap.ordered_keys
  close reply member := by
    obtain ⟨n, n', here⟩ := served.mem member
    exact here.1

end

end Machteld
