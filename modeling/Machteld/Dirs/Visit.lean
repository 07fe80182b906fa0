import Machteld.Dirs.Tree

namespace Machteld

section

variable (o : DirsOptions) {fs : DirsFs} {v : DirsPending}

theorem dirsHost_ask (fs : DirsFs) (c : DirsCall (Wide × Bool)) (v : DirsPending) :
    (dirsHost fs).Reaches (Prog.ask c) v (.done (fs.act c v).1) (fs.act c v).2 :=
  .head (@Host.Step.call _ _ (dirsHost fs) _ _ _ () _ _ _ rfl) .refl

theorem linksRecord_reaches (w : DirsWalk) (full : Wide) (shown : Option Bytes) (tag : UInt32) (isdir : Bool) :
    (dirsHost fs).Reaches (linksRecord o w full shown tag isdir) v
      (.done (fs.recorded o w full shown tag isdir)) v :=
  (dirsHost_ask fs (.linkTarget full isdir) v).then .pure

/-- The calls that a file of a directory costs: its attributes and, with
`-hardlinks`, a handle for its link count, closed again. -/
theorem dirsFile_reaches (it : DirsItem) (w : DirsWalk) (e : DirEntry) :
    (dirsHost fs).Reaches (dirsFile o it w e) v (.done (fs.filed o it.path w e)) v := by
  unfold dirsFile DirsFs.filed
  cases o.mode with
  | dirs => exact .pure
  | links =>
    dsimp only
    split
    · exact .pure
    · split
      · split
        · exact linksRecord_reaches o _ _ _ _ _
        · exact .pure
      · split
        · have asked := dirsHost_ask fs (.linkCount (dirsJoin it.path e.name)) v
          unfold DirsFs.counted
          cases answer : fs.nlinks (dirsJoin it.path e.name) with
          | error err =>
            simp only [DirsFs.act] at asked
            refine asked.then ?_
            rw [DirsFs.nlinks] at answer
            simp only [answer]
            exact .pure
          | ok n =>
            simp only [DirsFs.act] at asked
            refine asked.then ?_
            rw [DirsFs.nlinks] at answer
            simp only [answer]
            exact .pure
        · exact .pure

theorem dirsKids_append (es es' : List DirEntry) : dirsKids o (es ++ es') = dirsKids o es ++ dirsKids o es' := by
  simp only [dirsKids, List.filter_append, List.filterMap_append]

theorem dirsBad_append (es es' : List DirEntry) : dirsBad o (es ++ es') = dirsBad o es + dirsBad o es' := by
  simp only [dirsBad, List.filter_append, List.countP_append]

/-- One entry of a directory is a file that is filed, a child that is
pushed, or a name without a spelling. -/
theorem dirsEntry_reaches (it : DirsItem) (s : DirsScan) (e : DirEntry) :
    (dirsHost fs).Reaches (dirsEntry o it s e) v
      (.done ⟨fs.looked o it.path s.walk e, s.kids ++ dirsKids o [e], s.badName + dirsBad o [e]⟩) v := by
  unfold dirsEntry DirsFs.looked
  by_cases isDirectory : e.directory = true
  · rw [if_pos isDirectory, if_pos isDirectory]
    by_cases dot : dotName e.name = true
    · rw [if_pos dot]
      simp only [dirsKids, dirsBad, DirEntry.subdirectory, isDirectory, dot, List.filter_cons,
        List.filter_nil, Bool.not_true,
        Bool.and_false, Bool.false_eq_true, if_false, List.filterMap_nil, List.append_nil,
          List.countP_nil, Nat.add_zero]
      exact .pure
    · rw [if_neg dot]
      have kept : [e].filter DirEntry.subdirectory = [e] := by
        simp only [DirEntry.subdirectory, isDirectory, dot, List.filter_cons, List.filter_nil,
          Bool.not_false, Bool.and_self,
          if_true]
      simp only [dirsKids, dirsBad, kept, List.filterMap_cons, List.filterMap_nil, List.countP_cons,
        List.countP_nil]
      cases dirsChild o e with
      | some k => exact .pure
      | none =>
        simp only [List.append_nil, Option.isNone_none, if_true, Nat.zero_add]
        exact .pure
  · rw [if_neg isDirectory, if_neg isDirectory]
    have dropped : [e].filter DirEntry.subdirectory = [] := by
      simp only [DirEntry.subdirectory, isDirectory, List.filter_cons, List.filter_nil, Bool.false_and,
        Bool.false_eq_true,
        if_false]
    refine (dirsFile_reaches o it s.walk e).then ?_
    simp only [dirsKids, dirsBad, dropped, List.filterMap_nil, List.append_nil, List.countP_nil, Nat.add_zero]
    exact .pure

theorem dirsEntries_reaches (it : DirsItem) (s : DirsScan) (es : List DirEntry) :
    (dirsHost fs).Reaches (dirsEntries o it s es) v
      (.done ⟨es.foldl (fs.looked o it.path) s.walk, s.kids ++ dirsKids o es, s.badName + dirsBad o es⟩) v := by
  induction es generalizing s with
  | nil =>
    simp only [dirsKids, dirsBad, List.foldl_nil, List.filter_nil, List.filterMap_nil, List.append_nil,
      List.countP_nil,
      Nat.add_zero]
    exact .pure
  | cons e es ih =>
    have kids : dirsKids o (e :: es) = dirsKids o [e] ++ dirsKids o es := dirsKids_append o [e] es
    have bad : dirsBad o (e :: es) = dirsBad o [e] + dirsBad o es := dirsBad_append o [e] es
    rw [List.foldl_cons, kids, bad, ← List.append_assoc, ← Nat.add_assoc]
    exact (dirsEntry_reaches o it s e).then (ih _)

/-- What is left of the enumeration that a restart begins. -/
def DirsPending.begun (v : DirsPending) (h : Wide × Bool) : Except Nat DirStream → DirsPending
  | .error _ => v
  | .ok s => Function.update v h (s.more, s.last)

/-- The loop that doubles the buffer reads the directory from its start each time,
and the last reading is the one that counts; what was read before is thrown away.
-/
theorem dirsRestart_reaches (h : Wide × Bool) (k bufsz : Nat) :
    ∃ n, (dirsHost fs).Reaches (dirsRestart h k bufsz) v
      (.done ((dirsGrown (fs.stream h.1 h.2) k bufsz).map DirStream.first, n))
      (v.begun h (dirsGrown (fs.stream h.1 h.2) k bufsz)) := by
  induction k generalizing bufsz with
  | zero =>
    have asked := dirsHost_ask fs (.restart h bufsz) v
    cases answer : fs.stream h.1 h.2 bufsz with
    | error e =>
      simp only [DirsFs.act, answer] at asked
      simp only [dirsGrown, answer]
      exact ⟨bufsz, asked.then .pure⟩
    | ok s =>
      simp only [DirsFs.act, answer] at asked
      simp only [dirsGrown, answer]
      exact ⟨bufsz, asked.then .pure⟩
  | succ k ih =>
    have asked := dirsHost_ask fs (.restart h bufsz) v
    cases answer : fs.stream h.1 h.2 bufsz with
    | error e =>
      simp only [DirsFs.act, answer] at asked
      by_cases small : e = errorMoreData ∨ e = errorNotEnoughMemory
      · obtain ⟨n, run⟩ := ih (bufsz * 2)
        simp only [dirsGrown, answer, small, if_true]
        refine ⟨n, asked.then ?_⟩
        simp only [small, if_true]
        exact run
      · simp only [dirsGrown, answer, small, if_false]
        refine ⟨bufsz, asked.then ?_⟩
        simp only [small, if_false]
        exact .pure
    | ok s =>
      simp only [DirsFs.act, answer] at asked
      simp only [dirsGrown, answer]
      exact ⟨bufsz, asked.then .pure⟩

/-- The loop over the buffers, with its scan and its errors. -/
theorem dirsBatches_reaches (it : DirsItem) (h : Wide × Bool) (bufsz last : Nat) (first : DirBatch)
    (more : List DirBatch)
    (s : DirsScan) (pending : v h = (more, last)) :
    ∃ v', (dirsHost fs).Reaches (Prog.iterate (dirsBatchTurn o it h bufsz) (s, first)) v
      (.done (⟨(dirsRead last first more).1.foldl (fs.looked o it.path) s.walk,
        s.kids ++ dirsKids o (dirsRead last first more).1,
        s.badName + dirsBad o (dirsRead last first more).1⟩, (dirsRead last first more).2)) v' := by
  induction more generalizing s first v with
  | nil =>
    refine ⟨v, .last ((dirsEntries_reaches o it s first.entries).then ?_)⟩
    by_cases overrun : first.overrun = true
    · simp only [dirsRead, overrun, if_true]
      exact .pure
    · simp only [dirsRead, overrun]
      have asked := dirsHost_ask fs (.next h bufsz) v
      simp only [DirsFs.act, pending] at asked
      exact asked.then .pure
  | cons next more ih =>
    by_cases overrun : first.overrun = true
    · refine ⟨v, .last ((dirsEntries_reaches o it s first.entries).then ?_)⟩
      simp only [dirsRead, overrun, if_true]
      exact .pure
    · have asked := dirsHost_ask fs (.next h bufsz) v
      simp only [DirsFs.act, pending] at asked
      obtain ⟨v', rest⟩ :=
        ih next ⟨first.entries.foldl (fs.looked o it.path) s.walk, s.kids ++ dirsKids o first.entries,
        s.badName + dirsBad o first.entries⟩ (Function.update_self h (more, last) v)
      have turned : (dirsHost fs).Reaches (dirsBatchTurn o it h bufsz (s, first)) v
          (.done (.inl (⟨first.entries.foldl (fs.looked o it.path) s.walk, s.kids ++ dirsKids o first.entries,
            s.badName + dirsBad o first.entries⟩, next))) (Function.update v h (more, last)) := by
        refine (dirsEntries_reaches o it s first.entries).then ?_
        simp only [overrun]
        exact asked.then .pure
      refine ⟨v', .turn turned ?_⟩
      simp only [dirsRead, overrun, Bool.false_eq_true, if_false, List.foldl_append,
        dirsKids_append, dirsBad_append,
        ← List.append_assoc, ← Nat.add_assoc]
      exact rest

/-- A directory that cannot be listed leaves one error and no children. -/
theorem dirsChildren_failed (w : DirsWalk) (h : Wide × Bool) (it : DirsItem) {e : Nat}
    (failed : fs.listing h.1 h.2 = .error e) :
    (dirsHost fs).Reaches (dirsChildren o w h it) v (.done (w.fault o it.path e, none)) v := by
  obtain ⟨n, run⟩ := @dirsRestart_reaches fs v h 8 65536
  unfold DirsFs.listing at failed
  split at failed
  · rename_i e' grown
    obtain ⟨other, same⟩ := ite_eq_iff'.mp failed
    simp only [grown] at run
    by_cases empty : e' = errorNoMoreFiles
    · cases other empty
    · obtain rfl := Except.error.inj (same empty)
      refine run.then ?_
      simp only [Except.map, empty, if_false]
      exact .pure
  · cases failed

/-- A directory that is listed leaves what its entries leave one after
another, the errors of the reading behind them, and its children in the
order of their names. -/
theorem dirsChildren_listed (w : DirsWalk) (h : Wide × Bool) (it : DirsItem) {es : List DirEntry}
    {errors : List Nat}
    (listed : fs.listing h.1 h.2 = .ok (es, errors)) :
    ∃ v', (dirsHost fs).Reaches (dirsChildren o w h it) v
      (.done ((es.foldl (fs.looked o it.path) w).faults o it.path
        (errors ++ List.replicate (dirsBad o es) errorNoUnicodeTranslation),
        some ((dirsKids o es).insertionSort fun x y => dirsNamecmp x y = true))) v' := by
  obtain ⟨n, run⟩ := @dirsRestart_reaches fs v h 8 65536
  unfold DirsFs.listing at listed
  split at listed
  · rename_i e grown
    obtain ⟨same, other⟩ := ite_eq_iff'.mp listed
    simp only [grown] at run
    by_cases empty : e = errorNoMoreFiles
    · obtain ⟨rfl, rfl⟩ := Prod.mk.inj (Except.ok.inj (same empty))
      refine ⟨v, run.then ?_⟩
      simp only [Except.map, empty, if_true]
      exact .pure
    · cases other empty
  · rename_i s grown
    obtain ⟨rfl, rfl⟩ := Prod.mk.inj ((Except.ok.inj listed).trans Prod.mk.eta.symm)
    simp only [grown] at run
    obtain ⟨v', rest⟩ := @dirsBatches_reaches o fs _ it h n s.last s.first s.more ⟨w, [], 0⟩
      (Function.update_self h (s.more, s.last) v)
    simp only [List.nil_append, Nat.zero_add] at rest
    exact ⟨v', run.then (rest.then .pure)⟩

/-- The result of an opening. -/
def DirsWalk.opened (w : DirsWalk) (path : Wide) :
    DirsItem × Except (DirsAction × List Nat) Bool → DirsOpened (Wide × Bool)
  | (it, .error (action, errors)) => ⟨it, w.faults o path errors, .error action⟩
  | (it, .ok follow) => ⟨it, w, .ok (path, follow)⟩

theorem dirsOpen_reaches (fs : DirsFs) (path : Wide) (follow : Bool) (v : DirsPending) :
    (dirsHost fs).Reaches (dirsOpen path follow) v
      (.done (match fs.opened path follow with | some e => .error e | none => .ok (path, follow))) v := by
  have asked := dirsHost_ask fs (.createFile path follow) v
  cases answer : fs.opened path follow with
  | some e =>
    simp only [DirsFs.act, answer] at asked
    exact asked
  | none =>
    simp only [DirsFs.act, answer] at asked
    exact asked

/-- What opening an item comes to on a file system that holds still. -/
theorem dirsOpenItem_reaches (w : DirsWalk) (it : DirsItem) :
    (dirsHost fs).Reaches (dirsOpenItem o w it) v (.done (w.opened o it.path (fs.opening it))) v := by
  have first := dirsOpen_reaches fs it.path (decide (it.depth = 0)) v
  unfold DirsFs.opening
  cases opened : fs.opened it.path (decide (it.depth = 0)) with
  | some e =>
    rw [opened] at first
    exact first.then .pure
  | none =>
    rw [opened] at first
    refine first.then ?_
    by_cases isRoot : it.depth = 0
    · simp only [isRoot, decide_true, if_true]
      exact .pure
    · simp only [isRoot, decide_false, if_false]
      have asked := dirsHost_ask fs (.attributeTag (it.path, false)) v
      cases told : fs.attributes it.path false with
      | error e =>
        simp only [DirsFs.act, told] at asked
        exact asked.then .pure
      | ok info =>
        simp only [DirsFs.act, told] at asked
        refine asked.then ?_
        by_cases isReparse : info.reparse = true
        · simp only [isReparse, if_true]
          refine (dirsHost_ask fs (.closeHandle (it.path, false)) v).then ?_
          by_cases isName : dirsIsname info.tag = true
          · rw [if_pos isName, if_pos (show (it.classified info.tag).noenter = true from isName)]
            exact .pure
          · rw [if_neg isName, if_neg (show ¬ (it.classified info.tag).noenter = true from isName)]
            have second := dirsOpen_reaches fs it.path true v
            cases again : fs.opened it.path true with
            | some e =>
              rw [again] at second
              exact second.then .pure
            | none =>
              rw [again] at second
              exact second.then .pure
        · simp only [isReparse]
          exact .pure

/-- The three reasons why a directory is not entered. -/
theorem dirsRefusal_cases {it : DirsItem} {action : DirsAction} (refused : dirsRefusal o it = some action) :
    action = .depthlimited ∨ action = .pruned ∨ action = .nofollow := by
  unfold dirsRefusal at refused
  split at refused
  · exact .inl (Option.some.inj refused).symm
  · split at refused
    · exact .inr (.inl (Option.some.inj refused).symm)
    · split at refused
      · exact .inr (.inr (Option.some.inj refused).symm)
      · cases refused

/-- One visit: open, decide, list and close, whatever the outcome of each of
them. What it comes to is the report of the item on a file system that holds
still. -/
theorem dirsDescend_reaches (w : DirsWalk) (it : DirsItem) :
    ∃ v', (dirsHost fs).Reaches (dirsDescend o w it) v
      (.done ⟨(fs.report o it).item, fs.booked o w it.path (fs.report o it), (fs.report o it).action,
        decide ((fs.report o it).action = .descended), (fs.report o it).kids⟩) v' := by
  unfold dirsDescend
  cases refused : dirsRefusal o it with
  | some action =>
    rw [DirsFs.report_refused refused]
    rcases dirsRefusal_cases o refused with rfl | rfl | rfl <;> exact ⟨v, .pure⟩
  | none =>
    have opened := @dirsOpenItem_reaches o fs v w it
    have path := (fs.opening_placed it).1
    rcases opening : fs.opening it with ⟨it', ⟨action, errors⟩ | follow⟩
    · rw [DirsFs.report_unopened refused opening]
      rw [opening] at opened
      refine ⟨v, opened.then ?_⟩
      rcases DirsFs.opening_error opening with ⟨rfl, -, -⟩ | ⟨rfl, -⟩ <;> exact .pure
    · rw [opening] at opened path
      have samePath : it'.path = it.path := path
      cases listing : fs.listing it'.path follow with
      | error e =>
        rw [DirsFs.report_unlisted refused opening listing]
        have failed := @dirsChildren_failed o fs v w (it.path, follow) it' e (path ▸ listing)
        rw [samePath] at failed
        exact ⟨v, opened.then (failed.then ((dirsHost_ask fs (.closeHandle (it.path, follow)) v).then .pure))⟩
      | ok found =>
        rw [DirsFs.report_listed refused opening listing]
        obtain ⟨v', listed⟩ := @dirsChildren_listed o fs v w (it.path, follow) it' _ _ (path ▸ listing)
        rw [samePath] at listed
        exact ⟨v', opened.then (listed.then ((dirsHost_ask fs (.closeHandle (it.path, follow)) v').then .pure))⟩

theorem DirsFs.report_path (it : DirsItem) : (fs.report o it).item.path = it.path := by
  have placed := (fs.opening_placed it).1
  unfold DirsFs.report
  split
  · rfl
  · split
    · rename_i opening
      rw [opening] at placed
      exact placed
    · rename_i opening
      rw [opening] at placed
      split <;> exact placed

/-- What the row of a visited item adds on a file system that holds still.
-/
theorem dirsDisclose_reaches (w : DirsWalk) (it : DirsItem) (shown : Option Bytes) :
    (dirsHost fs).Reaches (dirsDisclose o ⟨(fs.report o it).item, w, (fs.report o it).action,
        decide ((fs.report o it).action = .descended), (fs.report o it).kids⟩ shown) v
      (.done (fs.disclosed o w it.path (fs.report o it) shown)) v := by
  have path := fs.report_path o it
  unfold dirsDisclose DirsFs.disclosed
  dsimp only
  split
  · cases o.mode with
    | dirs => exact .pure
    | links =>
      dsimp only
      split
      · rw [path]
        exact linksRecord_reaches o _ _ _ _ _
      · simp only [decide_eq_true_eq]
        exact .pure
  · exact .pure

theorem dirsPush_eq (item : DirsItem) (kids : List DirsChild) (stack : List DirsItem) :
    kids.foldr (fun k stack => k.item item :: stack) stack = kids.map (·.item item) ++ stack := by
  induction kids with
  | nil => rfl
  | cons k kids ih => exact congrArg (k.item item :: ·) ih

theorem dirsWalkTurn_reaches (it : DirsItem) (stack : List DirsItem) (w : DirsWalk) :
    ∃ v', (dirsHost fs).Reaches (dirsWalkTurn o (it :: stack, w)) v
      (.done (.inl (fs.kids o it ++ stack, fs.note o w it))) v' := by
  obtain ⟨v', descended⟩ := @dirsDescend_reaches o fs v (w.emit o it (dirsStrip o.unc it.path)) it
  refine ⟨v', descended.then ((dirsDisclose_reaches o _ it _).then ?_)⟩
  rw [dirsPush_eq]
  exact .pure

/-- The tally of the walk over a forest is the one over its pre-order. -/
theorem dirsWalk_forest {items order : List DirsItem} (walk : DepthFirst (fs.kids o) items order)
    (stack : List DirsItem)
    (w : DirsWalk) (v : DirsPending) :
    ∃ v', ∀ q u, (dirsHost fs).Reaches (Prog.iterate (dirsWalkTurn o) (stack, order.foldl (fs.note o) w)) v' q u →
      (dirsHost fs).Reaches (Prog.iterate (dirsWalkTurn o) (items ++ stack, w)) v q u := by
  induction walk generalizing stack w v with
  | nil => exact ⟨v, fun _ _ rest => rest⟩
  | @cons it items below later _ _ inside beside =>
    obtain ⟨v₁, turned⟩ := @dirsWalkTurn_reaches o fs v it (items ++ stack) w
    obtain ⟨v₂, inner⟩ := inside (items ++ stack) (fs.note o w it) v₁
    obtain ⟨v₃, outer⟩ := beside stack (below.foldl (fs.note o) (fs.note o w it)) v₂
    refine ⟨v₃, fun q u rest => .turn turned (inner q u (outer q u ?_))⟩
    rw [List.foldl_cons, List.foldl_append] at rest
    exact rest

theorem dirsWalk_reaches {rootw : Wide} {reparse : Bool} {tag : UInt32} {order : List DirsItem}
    (walk : DepthFirst (fs.kids o) [dirsRoot rootw reparse tag] order) (w : DirsWalk) (v : DirsPending) :
    ∃ v', (dirsHost fs).Reaches (dirsWalk o w rootw reparse tag) v (.done (order.foldl (fs.note o) w)) v' := by
  obtain ⟨v', ends⟩ := dirsWalk_forest o walk [] w v
  exact ⟨v', ends _ _ (.last .pure)⟩

theorem dirsRootTag_reaches (fs : DirsFs) (rootw : Wide) (v : DirsPending) :
    (dirsHost fs).Reaches (dirsRootTag rootw) v (.done (fs.rootTag rootw)) v := by
  have first := dirsOpen_reaches fs rootw false v
  unfold DirsFs.rootTag
  cases opened : fs.opened rootw false with
  | some e =>
    rw [opened] at first
    exact first.then .pure
  | none =>
    rw [opened] at first
    have asked := dirsHost_ask fs (.attributeTag (rootw, false)) v
    have closed := dirsHost_ask fs (.closeHandle (rootw, false)) v
    cases told : fs.attributes rootw false with
    | error e =>
      simp only [DirsFs.act, told] at asked
      exact first.then (asked.then (closed.then .pure))
    | ok info =>
      simp only [DirsFs.act, told] at asked
      exact first.then (asked.then (closed.then .pure))

theorem dirsRootScanned_reaches (fs : DirsFs) (rootw : Wide) (v : DirsPending) :
    (dirsHost fs).Reaches (dirsRootScanned rootw (fs.rootTag rootw).1) v (.done (fs.rootScanned rootw)) v := by
  unfold DirsFs.rootScanned
  cases (fs.rootTag rootw).1 with
  | some tag => exact .pure
  | none =>
    have asked := dirsHost_ask fs (.findFirst rootw) v
    simp only [DirsFs.act] at asked
    refine asked.then ?_
    cases fs.found rootw with
    | none => exact .pure
    | some info => exact .pure

/-- The explicit stack visits the tree in depth-first order, and the report
is the fold of the visits over that order. The order is the one of the
specification, so the rest is about folds. -/
theorem dirsCore_reaches {rootw : Wide} (opens : fs.Opens rootw) {order : List DirsItem}
    (walk : DepthFirst (fs.kids o) [fs.root rootw] order) (v : DirsPending) :
    ∃ v', (dirsHost fs).Reaches (dirsCore o rootw) v
      (.done (.ok (order.foldl (fs.note o) (fs.rootWalk o rootw)))) v' := by
  have first := dirsOpen_reaches fs rootw true v
  rw [opens.opened] at first
  obtain ⟨info, told, isDirectory⟩ := opens.directory
  have asked := dirsHost_ask fs (.attributeTag (rootw, true)) v
  simp only [DirsFs.act, told] at asked
  obtain ⟨v', walked⟩ := dirsWalk_reaches o walk (fs.rootWalk o rootw) v
  refine ⟨v', first.then (asked.then ((dirsHost_ask fs (.closeHandle (rootw, true)) v).then ?_))⟩
  simp only [isDirectory, Bool.true_eq_false, if_false]
  exact (dirsRootTag_reaches fs rootw v).then ((dirsRootScanned_reaches fs rootw v).then (walked.then .pure))

end

end Machteld
