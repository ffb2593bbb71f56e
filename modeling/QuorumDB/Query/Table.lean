import QuorumDB.Query.Record
import QuorumDB.Storage.BPlusTree
import QuorumDB.Storage.WalManager

/-!
The table (`query/table.cpp`). Its calls are those on the tree, on the buffer pool, on a page
the pool gave out and on the log, each under a lock of its own in the source.
-/

namespace QuorumDB.Query
open Storage Program

/-- The tree over its storage, and the log. -/
structure TableStore where
  tree : TreeStore
  wal : WALManager

inductive TableCall where
  | search (key : Key)
  | insert (key : Key) (value : Value)
  | delete (key : Key)
  | rangeScan (start stop : Key)
  | newPage
  | fetchPage (pageId : PageId)
  | unpinPage (pageId : PageId) (isDirty : Bool)
  | deletePage (pageId : PageId)
  | serializeRecord (page : Nat) (record : Record)
  | deserializeRecord (page : Nat)
  | appendInsert (recordId : Int64) (afterImage : Bytes)
  | appendUpdate (recordId : Int64) (beforeImage afterImage : Bytes)
  | appendDelete (recordId : Int64) (beforeImage : Bytes)
  | appendCommit
  | flush
  | readAllRecords

@[reducible] def TableCall.Answer : TableCall → Type
  | .search _ => Option Value
  | .insert _ _ => Bool
  | .delete _ => Bool
  | .rangeScan _ _ => List (Key × Value)
  | .newPage => Option (PageId × Nat)
  | .fetchPage _ => Option Nat
  | .unpinPage _ _ => Bool
  | .deletePage _ => Bool
  | .serializeRecord _ _ => Unit
  | .deserializeRecord _ => Record
  | .appendInsert _ _ => Int64
  | .appendUpdate _ _ _ => Int64
  | .appendDelete _ _ => Int64
  | .appendCommit => Unit
  | .flush => Unit
  | .readAllRecords => List LogRecord

abbrev TableProg (Result : Type) : Type := Prog TableCall TableCall.Answer StorageError Result

def writeRecordBytes (page : Nat) (record : Record) : Access Unit := do
  BufferedDisk.setBlock page ((← Access.getData page).write (serializeRecord record))

/-- DeserializeRecord from the page of a frame. -/
def readRecordBytes (page : Nat) : Access Record := do
  return deserializeRecord (← Access.getData page).bytes

namespace TableStore

variable {Result : Type}

def onTree (program : PageProg Result) (store : TableStore) : Option (Except StorageError Result × TableStore) :=
  (run TreeStore.handler program store.tree).map fun done => (done.1, { store with tree := done.2 })

def onPages (access : Access Result) (store : TableStore) : Option (Except StorageError Result × TableStore) :=
  (store.tree.accessing access).map fun done => (done.1, { store with tree := done.2 })

def onLog (answer : Result) (wal : WALManager) (store : TableStore) :
    Option (Except StorageError Result × TableStore) :=
  some (.ok answer, { store with wal := wal })

/-- What each call does. The loops of the tree are given `rounds`. -/
def handler (rounds : Nat) : Handler TableCall TableCall.Answer StorageError TableStore
  | .search key => onTree (BPlusTree.search rounds key)
  | .insert key value => onTree (BPlusTree.insert rounds key value)
  | .delete key => onTree (BPlusTree.delete rounds key)
  | .rangeScan start stop => onTree (BPlusTree.rangeScan rounds start stop [])
  | .newPage => onPages BufferedDisk.newPage
  | .fetchPage pageId => onPages (BufferedDisk.fetchPage pageId)
  | .unpinPage pageId isDirty => onPages (BufferedDisk.unpinPage pageId isDirty)
  | .deletePage pageId => onPages (BufferedDisk.deletePage pageId)
  | .serializeRecord page record => onPages (writeRecordBytes page record)
  | .deserializeRecord page => onPages (readRecordBytes page)
  | .appendInsert recordId afterImage => fun store =>
      onLog (store.wal.appendInsert recordId afterImage).1 (store.wal.appendInsert recordId afterImage).2 store
  | .appendUpdate recordId beforeImage afterImage => fun store =>
      onLog (store.wal.appendUpdate recordId beforeImage afterImage).1
        (store.wal.appendUpdate recordId beforeImage afterImage).2 store
  | .appendDelete recordId beforeImage => fun store =>
      onLog (store.wal.appendDelete recordId beforeImage).1 (store.wal.appendDelete recordId beforeImage).2 store
  | .appendCommit => fun store => onLog () store.wal.appendCommit store
  | .flush => fun store => onLog () store.wal.flush store
  | .readAllRecords => fun store => onLog store.wal.readAllRecords store.wal store

end TableStore

namespace TableProg

def search (key : Key) : TableProg (Option Value) := Prog.ask (TableCall.search key)
def insertKey (key : Key) (value : Value) : TableProg Bool := Prog.ask (TableCall.insert key value)
def deleteKey (key : Key) : TableProg Bool := Prog.ask (TableCall.delete key)
def rangeScan (start stop : Key) : TableProg (List (Key × Value)) := Prog.ask (TableCall.rangeScan start stop)
def newPage : TableProg (Option (PageId × Nat)) := Prog.ask TableCall.newPage
def fetchPage (pageId : PageId) : TableProg (Option Nat) := Prog.ask (TableCall.fetchPage pageId)
def unpinPage (pageId : PageId) (isDirty : Bool) : TableProg Bool := Prog.ask (TableCall.unpinPage pageId isDirty)
def deletePage (pageId : PageId) : TableProg Bool := Prog.ask (TableCall.deletePage pageId)
def serializeRecord (page : Nat) (record : Record) : TableProg Unit := Prog.ask (TableCall.serializeRecord page record)
def deserializeRecord (page : Nat) : TableProg Record := Prog.ask (TableCall.deserializeRecord page)
def appendInsert (recordId : Int64) (afterImage : Bytes) : TableProg Int64 :=
  Prog.ask (TableCall.appendInsert recordId afterImage)
def appendUpdate (recordId : Int64) (beforeImage afterImage : Bytes) : TableProg Int64 :=
  Prog.ask (TableCall.appendUpdate recordId beforeImage afterImage)
def appendDelete (recordId : Int64) (beforeImage : Bytes) : TableProg Int64 :=
  Prog.ask (TableCall.appendDelete recordId beforeImage)
def appendCommit : TableProg Unit := Prog.ask TableCall.appendCommit
def flush : TableProg Unit := Prog.ask TableCall.flush
def readAllRecords : TableProg (List LogRecord) := Prog.ask TableCall.readAllRecords

def ofExcept {Result : Type} : Except StorageError Result → TableProg Result
  | .ok value => .done value
  | .error error => .fail error

end TableProg

namespace Table
open TableProg

/-- RecordImage: a string of the record's size, overwritten with it. -/
def recordImage (record : Record) : Bytes := Query.serializeRecord record

def recordFromImage (image : Bytes) : Except StorageError Record :=
  if image.length ≠ recordSize then .error .recordImage else .ok (Query.deserializeRecord image)

def readRecord (recordPageId : Value) : TableProg (Option Record) := do
  let pageId := recordPageId.toInt32
  if pageId = invalidPageId then return none
  else
    match ← fetchPage pageId with
    | none => return none
    | some page =>
        let record ← TableProg.deserializeRecord page
        let _ ← unpinPage pageId false
        return some record

def writeRecord (recordPageId : Value) (record : Record) : TableProg Bool := do
  match ← fetchPage recordPageId.toInt32 with
  | none => return false
  | some page =>
      TableProg.serializeRecord page record
      let _ ← unpinPage recordPageId.toInt32 true
      return true

def insertWithoutWAL (record : Record) : TableProg Bool := do
  match ← search record.id with
  | some _ => return false
  | none =>
      match ← newPage with
      | none => return false
      | some (recordPageId, page) =>
          TableProg.serializeRecord page record
          let _ ← unpinPage recordPageId true
          if ← insertKey record.id recordPageId.toInt64 then return true
          else
            let _ ← deletePage recordPageId
            return false

def updateWithoutWAL (id : Int64) (record : Record) : TableProg Bool := do
  match ← search id with
  | none => insertWithoutWAL record
  | some recordPageId => writeRecord recordPageId record

def deleteWithoutWAL (id : Int64) : TableProg Bool := do
  match ← search id with
  | none => return true
  | some recordPageId =>
      if ← deleteKey id then deletePage recordPageId.toInt32 else return false

/-- What is done only when there is a log. -/
def withLog (logged : Bool) (program : TableProg Unit) : TableProg Unit :=
  if logged then program else return ()

/-- `none` when Select returns false. -/
def select (id : Int64) : TableProg (Option Record) := do
  match ← search id with
  | none => return none
  | some recordPageId => readRecord recordPageId

/-- The loop of SelectWhere. -/
def selectFrom (predicate : Record → Bool) : List (Key × Value) → List Record → TableProg (List Record)
  | [], records => return records
  | entry :: entries, records => do
      match ← readRecord entry.2 with
      | none => selectFrom predicate entries records
      | some record =>
          if predicate record then selectFrom predicate entries (records ++ [record])
          else selectFrom predicate entries records

def selectWhere (predicate : Record → Bool) : TableProg (List Record) := do
  selectFrom predicate (← rangeScan Int64.minValue Int64.maxValue) []

def insert (logged : Bool) (record : Record) : TableProg Bool := do
  match ← search record.id with
  | some _ => return false
  | none =>
      withLog logged do
        let _ ← appendInsert record.id (recordImage record)
        flush
      let inserted ← insertWithoutWAL record
      withLog (inserted && logged) appendCommit
      return inserted

def update (logged : Bool) (id : Int64) (mutator : Record → Record) : TableProg Bool := do
  match ← select id with
  | none => return false
  | some before =>
      let record := { mutator before with id := id }
      withLog logged do
        let _ ← appendUpdate id (recordImage before) (recordImage record)
        flush
      let updated ← updateWithoutWAL id record
      withLog (updated && logged) appendCommit
      return updated

def delete (logged : Bool) (id : Int64) : TableProg Bool := do
  match ← select id with
  | none => return false
  | some record =>
      withLog logged do
        let _ ← appendDelete id (recordImage record)
        flush
      let deleted ← deleteWithoutWAL id
      withLog (deleted && logged) appendCommit
      return deleted

/-- One round of Recover. -/
def replay (record : LogRecord) : TableProg Unit :=
  match record.type with
  | .insert => do
      let _ ← insertWithoutWAL (← ofExcept (recordFromImage record.afterImage))
      return ()
  | .update => do
      let _ ← updateWithoutWAL record.recordId (← ofExcept (recordFromImage record.afterImage))
      return ()
  | .delete => do
      let _ ← deleteWithoutWAL record.recordId
      return ()
  | .commit => return ()

def replayAll : List LogRecord → TableProg Unit
  | [] => return ()
  | record :: records => do
      replay record
      replayAll records

def recover (logged : Bool) : TableProg Unit :=
  withLog logged do replayAll (← readAllRecords)

end Table

namespace QueryEngine

def insert (logged : Bool) (id : Int64) (name : Bytes) (value : Int64) : TableProg Bool :=
  Table.insert logged ⟨id, name, value⟩

def selectById (id : Int64) : TableProg (Option Record) := Table.select id

def selectWhere (predicate : Record → Bool) : TableProg (List Record) := Table.selectWhere predicate

def updateValue (logged : Bool) (id : Int64) (newValue : Int64) : TableProg Bool :=
  Table.update logged id fun record => { record with value := newValue }

def deleteById (logged : Bool) (id : Int64) : TableProg Bool := Table.delete logged id

end QueryEngine

end QuorumDB.Query
