import Machteld.Json.Value
import Machteld.Prog

namespace Machteld

/-- What tells a file from every other. -/
abbrev FileId := Nat

structure FileAttrs where
  disk : Bool
  directory : Bool
  reparse : Bool
  readonly : Bool

/-- Two ways to tell a file, each with the serial number of its volume; a
file system may know either. -/
structure PublishIdentity where
  extended : Option (Nat × FileId)
  legacy : Option (Nat × FileId)

structure PublishFileInfo where
  attributes : FileAttrs
  identity : PublishIdentity

inductive PublishProbe
  | error (error : Nat)
  | absent
  | present (info : PublishFileInfo)

/-- The system calls of publication, on places in the file system. -/
inductive PublishCall (Path : Type)
  | openExisting (path : Path)
  | createNew (path : Path)
  | getFileType (handle : Nat)
  | getFileInformation (handle : Nat)
  | getAttributeTag (handle : Nat)
  | getFileIdInfo (handle : Nat)
  | closeHandle (handle : Nat)
  | deleteFile (path : Path)
  | getBasicInfo (handle : Nat)
  | setBasicInfo (handle : Nat)
  | setDisposition (handle : Nat)
  | moveFile (source target : Path)
  | replaceFile (replaced replacement backup : Path)
  | genRandom
  | malloc

abbrev PublishCall.Answer {Path : Type} : PublishCall Path → Type
  | .openExisting _ => Except Nat Nat
  | .createNew _ => Except Nat Nat
  | .getFileType _ => Bool
  | .getFileInformation _ => Except Nat (FileAttrs × Nat × FileId)
  | .getAttributeTag _ => Except Nat FileAttrs
  | .getFileIdInfo _ => Except Nat (Nat × FileId)
  | .closeHandle _ => Unit
  | .deleteFile _ => Except Nat Unit
  | .getBasicInfo _ => Except Nat FileAttrs
  | .setBasicInfo _ => Except Nat Unit
  | .setDisposition _ => Except Nat Unit
  | .moveFile _ _ => Except Nat Unit
  | .replaceFile _ _ _ => Except Nat Unit
  | .genRandom => Option Bytes
  | .malloc => Bool

abbrev PublishProg (Path : Type) := Prog (PublishCall Path) PublishCall.Answer

namespace Publish

variable {Path : Type}

def openExisting (path : Path) : PublishProg Path (Except Nat Nat) := Prog.ask (PublishCall.openExisting path)

def createNew (path : Path) : PublishProg Path (Except Nat Nat) := Prog.ask (PublishCall.createNew path)

def getFileType (handle : Nat) : PublishProg Path Bool := Prog.ask (PublishCall.getFileType handle)

def getFileInformation (handle : Nat) : PublishProg Path (Except Nat (FileAttrs × Nat × FileId)) :=
  Prog.ask (PublishCall.getFileInformation handle)

def getAttributeTag (handle : Nat) : PublishProg Path (Except Nat FileAttrs) :=
  Prog.ask (PublishCall.getAttributeTag handle)

def getFileIdInfo (handle : Nat) : PublishProg Path (Except Nat (Nat × FileId)) :=
  Prog.ask (PublishCall.getFileIdInfo handle)

def closeHandle (handle : Nat) : PublishProg Path Unit := Prog.ask (PublishCall.closeHandle handle)

def deleteFile (path : Path) : PublishProg Path (Except Nat Unit) := Prog.ask (PublishCall.deleteFile path)

def getBasicInfo (handle : Nat) : PublishProg Path (Except Nat FileAttrs) :=
  Prog.ask (PublishCall.getBasicInfo handle)

def setBasicInfo (handle : Nat) : PublishProg Path (Except Nat Unit) := Prog.ask (PublishCall.setBasicInfo handle)

def setDisposition (handle : Nat) : PublishProg Path (Except Nat Unit) :=
  Prog.ask (PublishCall.setDisposition handle)

def moveFile (source target : Path) : PublishProg Path (Except Nat Unit) :=
  Prog.ask (PublishCall.moveFile source target)

def replaceFile (replaced replacement backup : Path) : PublishProg Path (Except Nat Unit) :=
  Prog.ask (PublishCall.replaceFile replaced replacement backup)

def genRandom : PublishProg Path (Option Bytes) := Prog.ask PublishCall.genRandom

def malloc : PublishProg Path Bool := Prog.ask PublishCall.malloc

end Publish

open Publish

/-- The paths of one publication, with the name of a backup file in the
parent of the destination and how a path is spelled. -/
structure PublishPaths (Path : Type) where
  candidate : Path
  destination : Path
  candidateParent : Path
  destinationParent : Path
  backup : Bytes → Path
  spell : Path → Bytes

section

variable {Path : Type}

def publishError (code : String) (message : String) : TclError :=
  ⟨ascii message, [ascii "MACHTELD", ascii "WRAP", ascii code]⟩

/-- `publish_win_error` -/
def publishWinError (message : String) (error : Nat) (recovery : Option Bytes) : TclError :=
  let windows := ascii message ++ (ascii " (Windows error " ++ (decimal error ++ ascii ")"))
  match recovery with
  | none => ⟨windows, [ascii "MACHTELD", ascii "WRAP", ascii "oserror"]⟩
  | some path =>
    ⟨windows ++ (ascii "; the prior destination remains at " ++ path),
      [ascii "MACHTELD", ascii "WRAP", ascii "oserror"]⟩

/-- `ERROR_FILE_NOT_FOUND` or `ERROR_PATH_NOT_FOUND` -/
def missingError (error : Nat) : Bool := error == 2 || error == 3

/-- `ERROR_FILE_EXISTS` or `ERROR_ALREADY_EXISTS` -/
def existsError (error : Nat) : Bool := error == 80 || error == 183

def errorSharingViolation : Nat := 32

def errorDirectory : Nat := 267

/-- `query_handle` -/
def queryHandle (handle : Nat) : PublishProg Path (Except Nat PublishFileInfo) := do
  let disk ← getFileType handle
  let legacy ← getFileInformation handle
  match legacy, ← getAttributeTag handle with
  | .error _, .error e => return .error e
  | .error _, .ok attributes =>
    match ← getFileIdInfo handle with
    | .error e => return .error e
    | .ok extended => return .ok ⟨{ attributes with disk := disk }, ⟨some extended, none⟩⟩
  | .ok (known, identity), tag =>
    let attributes := { tag.toOption.getD known with disk := disk }
    return .ok ⟨attributes, ⟨(← getFileIdInfo handle).toOption, some identity⟩⟩

/-- `probe_path` -/
def probePath (path : Path) : PublishProg Path PublishProbe := do
  match ← openExisting path with
  | .error e => return if missingError e then .absent else .error e
  | .ok handle =>
    let info ← queryHandle handle
    closeHandle handle
    match info with
    | .error e => return .error e
    | .ok info => return .present info

def sameIdentityValue (left right : PublishIdentity) : Bool :=
  match left.extended, right.extended with
  | some l, some r => l.1 == r.1 && l.2 == r.2
  | _, _ =>
    match left.legacy, right.legacy with
    | some l, some r => l.1 == r.1 && l.2 == r.2
    | _, _ => false

def sameVolume (left right : PublishIdentity) : Bool :=
  match left.extended, right.extended with
  | some l, some r => l.1 == r.1
  | _, _ =>
    match left.legacy, right.legacy with
    | some l, some r => l.1 == r.1
    | _, _ => false

def sameIdentity (left right : PublishFileInfo) : Bool := sameIdentityValue left.identity right.identity

def isRegular (info : PublishFileInfo) : Bool :=
  info.attributes.disk && !info.attributes.directory && !info.attributes.reparse

def isPlainDirectory (info : PublishFileInfo) : Bool :=
  info.attributes.disk && info.attributes.directory && !info.attributes.reparse

/-- `check_parent` -/
def checkParent (parent : Path) (label : String) : PublishProg Path (Except TclError PublishFileInfo) := do
  match ← probePath parent with
  | .absent => return .error (publishError "badvalue" (label ++ " does not exist"))
  | .error e => return .error (publishWinError "cannot inspect the publication parent directory" e none)
  | .present info =>
    if isPlainDirectory info then return .ok info
    else return .error (publishError "badvalue" (label ++ " must be a directory and not a reparse point"))

/-- `check_candidate` -/
def checkCandidate (candidate : Path) (expected : Option PublishFileInfo) :
    PublishProg Path (Except TclError PublishFileInfo) := do
  match ← probePath candidate with
  | .absent => return .error (publishError "badvalue" "publication candidate does not exist")
  | .error e =>
    if e = errorSharingViolation then
      return .error (publishError "badvalue" "publication candidate is still open for writing")
    else return .error (publishWinError "cannot inspect the publication candidate" e none)
  | .present current =>
    if !isRegular current then
      return .error (publishError "badvalue" "publication candidate must be a regular file and not a reparse point")
    else if expected.any fun expected => !sameIdentity expected current then
      return .error (publishError "badvalue" "publication candidate changed during publication")
    else return .ok current

/-- `check_destination`: nothing where the destination is absent. -/
def checkDestination (destination : Path) : PublishProg Path (Except TclError (Option PublishFileInfo)) := do
  match ← probePath destination with
  | .error e => return .error (publishWinError "cannot inspect the publication destination" e none)
  | .absent => return .ok none
  | .present info =>
    if isRegular info then return .ok (some info)
    else
      return .error (publishError "badvalue"
        "publication destination must be a regular file and not a reparse point")

/-- `backup_marker`, with the attempts that are left. -/
def backupMarker (paths : PublishPaths Path) : Nat → PublishProg Path (Except TclError (Path × PublishFileInfo))
  | 0 => return .error (publishError "oserror" "cannot reserve a unique publication backup path")
  | attempts + 1 => do
    match ← genRandom with
    | none => return .error (publishError "oserror" "the system random generator failed while publishing")
    | some random =>
      match ← malloc with
      | false => return .error (publishError "oserror" "out of memory creating the publication backup path")
      | true =>
        match ← createNew (paths.backup random) with
        | .error e =>
          if existsError e then backupMarker paths attempts
          else return .error (publishWinError "cannot reserve the publication backup path" e none)
        | .ok handle =>
          match ← queryHandle handle with
          | .error e =>
            closeHandle handle
            let _ ← deleteFile (paths.backup random)
            return .error (publishWinError "cannot identify the publication backup marker" e none)
          | .ok marker =>
            closeHandle handle
            return .ok (paths.backup random, marker)

/-- `delete_open_handle` -/
def deleteOpenHandle (handle : Nat) : PublishProg Path (Except Nat Unit) := do
  match ← queryHandle handle with
  | .error e => return .error e
  | .ok current =>
    if !isRegular current then return .error errorDirectory
    else if current.attributes.readonly then
      match ← getBasicInfo handle with
      | .error e => return .error e
      | .ok _ =>
        match ← setBasicInfo handle with
        | .error e => return .error e
        | .ok () => setDisposition handle
    else setDisposition handle

/-- `delete_identity` -/
def deleteIdentity (path : Path) (expected : PublishFileInfo) : PublishProg Path Bool := do
  match ← openExisting path with
  | .error _ => return false
  | .ok handle =>
    match ← queryHandle handle with
    | .error _ =>
      closeHandle handle
      return false
    | .ok current =>
      if isRegular current && sameIdentity current expected then
        let removed ← deleteOpenHandle handle
        closeHandle handle
        return removed.isOk
      else
        closeHandle handle
        return false

/-- The last part of `recover_replace_failure`: what the destination holds.
-/
def recoverAtDestination (destination : Path) (held : PublishFileInfo) : PublishProg Path Bool := do
  match ← probePath destination with
  | .present current => return !(isRegular current && sameIdentity current held)
  | _ => return true

/-- `recover_replace_failure`: whether the old destination could only be
retained at the backup. -/
def recoverReplaceFailure (oldHandle : Nat) (backup destination : Path) (marker : PublishFileInfo) :
    PublishProg Path Bool := do
  match ← queryHandle oldHandle with
  | .error _ => return true
  | .ok held =>
    if !isRegular held then return true
    else
      match ← probePath backup with
      | .error _ => return true
      | .absent => recoverAtDestination destination held
      | .present current =>
        if !isRegular current then return true
        else if sameIdentity current held then
          match ← probePath destination with
          | .absent => return !(← moveFile backup destination).isOk
          | _ => return true
        else if !sameIdentity current marker then return true
        else
          let _ ← deleteIdentity backup marker
          match ← probePath backup with
          | .absent => recoverAtDestination destination held
          | _ => return true

/-- How an attempt ends: with a result, or with another attempt. -/
abbrev PublishAttempt := Option (Except TclError Unit)

/-- The replacement of a destination that is retained by a handle. -/
def publishReplace (paths : PublishPaths Path) (backup : Path) (marker final : PublishFileInfo) (oldHandle : Nat) :
    PublishProg Path PublishAttempt := do
  match ← queryHandle oldHandle with
  | .error e =>
    closeHandle oldHandle
    let _ ← deleteIdentity backup marker
    return some (.error (publishWinError "cannot identify the retained publication destination" e none))
  | .ok held =>
    if !isRegular held || !sameIdentity held final then
      closeHandle oldHandle
      let _ ← deleteIdentity backup marker
      return none
    else
      match ← replaceFile paths.destination paths.candidate backup with
      | .ok () =>
        let _ ← deleteOpenHandle oldHandle
        closeHandle oldHandle
        return some (.ok ())
      | .error e =>
        let retained ← recoverReplaceFailure oldHandle backup paths.destination marker
        closeHandle oldHandle
        if missingError e && !retained then return none
        else
          return some (.error (publishWinError "cannot atomically replace the destination" e
            (if retained then some (paths.spell backup) else none)))

/-- An attempt from its reserved backup on. -/
def publishOver (paths : PublishPaths Path) (original old : PublishFileInfo) (backup : Path)
    (marker : PublishFileInfo) :
    PublishProg Path PublishAttempt := do
  match ← checkCandidate paths.candidate (some original) with
  | .error e =>
    let _ ← deleteIdentity backup marker
    return some (.error e)
  | .ok _ =>
    match ← checkDestination paths.destination with
    | .error e =>
      let _ ← deleteIdentity backup marker
      return some (.error e)
    | .ok none =>
      let _ ← deleteIdentity backup marker
      return none
    | .ok (some final) =>
      if !sameIdentity old final then
        let _ ← deleteIdentity backup marker
        return none
      else
        match ← openExisting paths.destination with
        | .error e =>
          let _ ← deleteIdentity backup marker
          if missingError e then return none
          else
            return some (.error
              (publishWinError "cannot retain the publication destination during replacement" e none))
        | .ok oldHandle => publishReplace paths backup marker final oldHandle

/-- One attempt. -/
def publishAttempt (paths : PublishPaths Path) (original parent : PublishFileInfo) :
    PublishProg Path PublishAttempt := do
  match ← checkCandidate paths.candidate (some original) with
  | .error e => return some (.error e)
  | .ok current =>
    match ← checkDestination paths.destination with
    | .error e => return some (.error e)
    | .ok none =>
      match ← moveFile paths.candidate paths.destination with
      | .ok () => return some (.ok ())
      | .error e =>
        if existsError e then return none
        else return some (.error (publishWinError "cannot publish the completed candidate" e none))
    | .ok (some old) =>
      if sameIdentity current old then
        return some (.error
          (publishError "badvalue" "publication candidate and destination name the same file"))
      else if !sameVolume old.identity parent.identity then
        return some (.error
          (publishError "badvalue" "publication destination changed volumes during publication"))
      else
        match ← backupMarker paths 16 with
        | .error e => return some (.error e)
        | .ok (backup, marker) => publishOver paths original old backup marker

def publishAttempts (paths : PublishPaths Path) (original parent : PublishFileInfo) :
    Nat → PublishProg Path (Except TclError Unit)
  | 0 => return .error (publishError "oserror" "publication destination changed too often to publish safely")
  | attempts + 1 => do
    match ← publishAttempt paths original parent with
    | some result => return result
    | none => publishAttempts paths original parent attempts

/-- `PublishCmd` from its paths on. -/
def publishCmd (paths : PublishPaths Path) : PublishProg Path (Except TclError Unit) := do
  match ← checkCandidate paths.candidate none with
  | .error e => return .error e
  | .ok original =>
    match ← checkParent paths.candidateParent "publication candidate parent" with
    | .error e => return .error e
    | .ok _ =>
      match ← checkParent paths.destinationParent "publication destination parent" with
      | .error e => return .error e
      | .ok parent =>
        if !sameVolume original.identity parent.identity then
          return .error
            (publishError "badvalue" "publication candidate and destination must be on the same volume")
        else publishAttempts paths original parent 8

end

end Machteld
