import MeshcoreSniffer.Pipeline.CrcRecover

/-!
# Rows of the events table

`db_sqlite_publish` with the columns that later queries select by or rewrite. A channel hash of zero
is stored as `NULL`, like an event without one.
-/

namespace MeshcoreSniffer.Pipeline

open Lib Meshcore

structure StoredRow extends EventRow where
  ts : ℚ
  payloadType : PayloadType
  channelHash : Option Byte
  json : Option (List Byte)
  telemetryJson : Option (List Byte)

/-- `db_sqlite_publish`, at the clock reading `ts`. -/
def storeEvent (ts : ℚ) (ev : MeshEvent) (jsonLine : List Byte) : StoredRow :=
  { dbSqlitePublish ev with
    ts := ts
    payloadType := ev.mcPayloadType
    channelHash := if ev.isMeshcore && ev.mcChannelHash != 0 then some ev.mcChannelHash else none
    json := nonEmpty jsonLine
    telemetryJson := if ev.isMeshcore && ev.decrypted then nonEmpty ev.mcTelemetryJson else none }

end MeshcoreSniffer.Pipeline
