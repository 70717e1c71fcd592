import Meridian.Fsw.Bytes
import Meridian.Lib.Word

/-!
# Reading from a file handle

The model of `fsw_shandle_read` of `filesystems/fsw_core.c`. What `get_extent` of the file system answers for a
block of the file, and what `fsw_block_get` delivers, are arguments.
-/

namespace Meridian.Fsw

open Lib.Word (sub64)

inductive ExtentType where
  | invalid | sparse | physblock | buffer
  deriving DecidableEq, Repr

/-- `struct fsw_extent`. -/
structure FswExtent where
  type : ExtentType
  logStart : Nat
  logCount : UInt32
  physStart : Nat
  buffer : List UInt8

/-- The volume and the file of a handle. -/
structure ShandleEnv where
  logBlocksize : UInt32
  physBlocksize : UInt32
  size : Nat
  blockGet : Nat → Except FswStatus (List UInt8)
  /-- The status, and the extent that is filled in. -/
  getExtent : Nat → Option FswStatus × FswExtent

/-- `struct fsw_shandle`. -/
structure FswShandle where
  pos : Nat
  extent : FswExtent

/-- The extent for a block: the one of the handle, or the one that is got. A hole is an error without a type. -/
def extentFor (env : ShandleEnv) (extent : FswExtent) (logBno : Nat) : Except FswStatus FswExtent :=
  if extent.type = .invalid ∨ logBno < extent.logStart ∨ logBno ≥ extent.logStart + extent.logCount.toNat then
    match env.getExtent logBno with
    | (none, extent) => .ok extent
    | (some status, extent) =>
      if status = .ioError ∧ extent.type = .invalid then .ok extent else .error status
  else .ok extent

/-- The bytes that a round copies; the number of the extent's bytes is a product of 32 bits. -/
def copyRound (env : ShandleEnv) (extent : FswExtent) (pos buflen : Nat) : FswM (List UInt8) :=
  let posInExtent := sub64 pos (u64 (extent.logStart * env.logBlocksize.toNat))
  if extent.type = .physblock then
    let physBno := u64 (posInExtent / env.physBlocksize.toNat + extent.physStart)
    let posInPhysblock := posInExtent &&& (env.physBlocksize.toNat - 1)
    let copylen := sub64 env.physBlocksize.toNat posInPhysblock
    let copylen := if copylen > buflen then buflen else copylen
    match env.blockGet physBno with
    | .error status => fail status
    | .ok blockBuffer => bytesAt blockBuffer posInPhysblock copylen
  else
    let copylen := sub64 (u32 (extent.logCount.toNat * env.logBlocksize.toNat)) posInExtent
    let copylen := if copylen > buflen then buflen else copylen
    if extent.type = .buffer then bytesAt extent.buffer posInExtent copylen
    else .ok (List.replicate copylen 0)

/-- The loop: the bytes that it copies, and the extent that the handle has behind it. -/
def readLoop (env : ShandleEnv) : Nat → FswExtent → Nat → Nat → FswM (List UInt8) × FswExtent
  | 0, extent, _, _ => (.error .outOfFuel, extent)
  | fuel + 1, extent, pos, buflen =>
    if buflen = 0 then (.ok [], extent)
    else
      let logBno := pos / env.logBlocksize.toNat
      match extentFor env extent logBno with
      | .error status => (fail status, { (env.getExtent logBno).2 with type := .invalid })
      | .ok extent =>
        match copyRound env extent pos buflen with
        | .error fault => (.error fault, extent)
        | .ok bytes =>
          let later := readLoop env fuel extent (u64 (pos + bytes.length)) (buflen - bytes.length)
          (later.1.map (bytes ++ ·), later.2)

/-- The bytes and their number as it is reported, and the handle. -/
def fswShandleRead (env : ShandleEnv) (fuel : Nat) (shand : FswShandle) (bufferSize : UInt32) :
    FswM (List UInt8 × Nat) × FswShandle :=
  if shand.pos ≥ env.size then (.ok ([], 0), shand)
  else
    let remainingFileData := env.size - shand.pos
    let buflen := if bufferSize.toNat > remainingFileData then remainingFileData else bufferSize.toNat
    let run := readLoop env fuel shand.extent shand.pos buflen
    match run.1 with
    | .error fault => (.error fault, { shand with extent := run.2 })
    | .ok bytes =>
      let pos := u64 (shand.pos + bytes.length)
      (.ok (bytes, u32 (sub64 pos shand.pos)), { pos, extent := run.2 })

end Meridian.Fsw
