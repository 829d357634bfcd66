import Strongbox.Status
import Strongbox.Wire.Schema

/-!
# Messages

What the parties of a file service say to each other, and the schema of each message.
-/

namespace Strongbox.Message

open Wire

/-- A name with a value, attached to a file. -/
structure Label where
  id : Int64 := 0
  name : String := ""
  value : String := ""
  deriving Repr, DecidableEq, Inhabited

/-- What is said about a file before its chunks. -/
structure Metadata where
  filename : String := ""
  mimeType : String := ""
  originalSize : Int64 := 0
  description : String := ""
  chunkSize : Int32 := 0
  totalChunks : Int32 := 0
  labels : List Label := []
  deriving Repr, DecidableEq, Inhabited

structure Chunk where
  data : Bytes := []
  index : Int32 := 0
  isLast : Bool := false
  deriving Repr, DecidableEq, Inhabited

/-- One item of a transfer, in either direction. -/
inductive Frame where
  | empty
  | metadata (m : Metadata)
  | chunk (c : Chunk)
  deriving Repr, DecidableEq, Inhabited

/-- What comes next in a stream of frames: a frame, or the status with which the stream breaks. -/
abbrev Item := Except Status Frame

structure Receipt where
  file : Int64 := 0
  bytesReceived : Int64 := 0
  status : String := ""
  deriving Repr, DecidableEq, Inhabited

structure FileRequest where
  file : Int64 := 0
  deriving Repr, DecidableEq, Inhabited

structure Removal where
  success : Bool := false
  deriving Repr, DecidableEq, Inhabited

structure ListRequest where
  page : Int32 := 0
  perPage : Int32 := 0
  filter : String := ""
  deriving Repr, DecidableEq, Inhabited

structure ListItem where
  id : Int64 := 0
  filename : String := ""
  mimeType : String := ""
  size : Int64 := 0
  description : String := ""
  createdAt : String := ""
  deriving Repr, DecidableEq, Inhabited

structure ListReply where
  files : List ListItem := []
  totalCount : Int32 := 0
  totalPages : Int32 := 0
  currentPage : Int32 := 0
  deriving Repr, DecidableEq, Inhabited

structure FileDetails where
  id : Int64 := 0
  filename : String := ""
  mimeType : String := ""
  size : Int64 := 0
  description : String := ""
  createdAt : String := ""
  labels : List Label := []
  deriving Repr, DecidableEq, Inhabited

/-! ## Schemas -/

def Label.schema : Schema Label where
  blank := {}
  entries := [
    Kind.int64.entry 1 (·.id) fun m v => { m with id := v },
    Kind.text.entry 2 (·.name) fun m v => { m with name := v },
    Kind.text.entry 3 (·.value) fun m v => { m with value := v }]

def Metadata.schema : Schema Metadata where
  blank := {}
  entries := [
    Kind.text.entry 1 (·.filename) fun m v => { m with filename := v },
    Kind.text.entry 2 (·.mimeType) fun m v => { m with mimeType := v },
    Kind.int64.entry 3 (·.originalSize) fun m v => { m with originalSize := v },
    Kind.text.entry 4 (·.description) fun m v => { m with description := v },
    Kind.int32.entry 5 (·.chunkSize) fun m v => { m with chunkSize := v },
    Kind.int32.entry 6 (·.totalChunks) fun m v => { m with totalChunks := v },
    Label.schema.repeated.entry 7 (·.labels) fun m v => { m with labels := v }]

def Chunk.schema : Schema Chunk where
  blank := {}
  entries := [
    Kind.bytes.entry 1 (·.data) fun m v => { m with data := v },
    Kind.int32.entry 2 (·.index) fun m v => { m with index := v },
    Kind.bool.entry 3 (·.isLast) fun m v => { m with isLast := v }]

def Frame.metadata? : Frame → Option Metadata
  | metadata m => some m
  | _ => none

def Frame.chunk? : Frame → Option Chunk
  | chunk c => some c
  | _ => none

def Frame.schema : Schema Frame where
  blank := .empty
  entries := [
    Metadata.schema.choice 1 Frame.metadata? .metadata,
    Chunk.schema.choice 2 Frame.chunk? .chunk]

def Receipt.schema : Schema Receipt where
  blank := {}
  entries := [
    Kind.int64.entry 1 (·.file) fun m v => { m with file := v },
    Kind.int64.entry 2 (·.bytesReceived) fun m v => { m with bytesReceived := v },
    Kind.text.entry 3 (·.status) fun m v => { m with status := v }]

def FileRequest.schema : Schema FileRequest where
  blank := {}
  entries := [Kind.int64.entry 1 (·.file) fun m v => { m with file := v }]

def Removal.schema : Schema Removal where
  blank := {}
  entries := [Kind.bool.entry 1 (·.success) fun m v => { m with success := v }]

def ListRequest.schema : Schema ListRequest where
  blank := {}
  entries := [
    Kind.int32.entry 1 (·.page) fun m v => { m with page := v },
    Kind.int32.entry 2 (·.perPage) fun m v => { m with perPage := v },
    Kind.text.entry 3 (·.filter) fun m v => { m with filter := v }]

def ListItem.schema : Schema ListItem where
  blank := {}
  entries := [
    Kind.int64.entry 1 (·.id) fun m v => { m with id := v },
    Kind.text.entry 2 (·.filename) fun m v => { m with filename := v },
    Kind.text.entry 3 (·.mimeType) fun m v => { m with mimeType := v },
    Kind.int64.entry 4 (·.size) fun m v => { m with size := v },
    Kind.text.entry 5 (·.description) fun m v => { m with description := v },
    Kind.text.entry 6 (·.createdAt) fun m v => { m with createdAt := v }]

def ListReply.schema : Schema ListReply where
  blank := {}
  entries := [
    ListItem.schema.repeated.entry 1 (·.files) fun m v => { m with files := v },
    Kind.int32.entry 2 (·.totalCount) fun m v => { m with totalCount := v },
    Kind.int32.entry 3 (·.totalPages) fun m v => { m with totalPages := v },
    Kind.int32.entry 4 (·.currentPage) fun m v => { m with currentPage := v }]

def FileDetails.schema : Schema FileDetails where
  blank := {}
  entries := [
    Kind.int64.entry 1 (·.id) fun m v => { m with id := v },
    Kind.text.entry 2 (·.filename) fun m v => { m with filename := v },
    Kind.text.entry 3 (·.mimeType) fun m v => { m with mimeType := v },
    Kind.int64.entry 4 (·.size) fun m v => { m with size := v },
    Kind.text.entry 5 (·.description) fun m v => { m with description := v },
    Kind.text.entry 6 (·.createdAt) fun m v => { m with createdAt := v },
    Label.schema.repeated.entry 7 (·.labels) fun m v => { m with labels := v }]

end Strongbox.Message
