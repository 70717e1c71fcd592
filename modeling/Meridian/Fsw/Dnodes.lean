import Meridian.Fsw.Bytes
import Meridian.Lib.Run
import Mathlib.Data.List.AList

/-!
# Directory nodes and their references

The model of `fsw_dnode_register`, `fsw_dnode_create_root_with_tree`, `fsw_dnode_create_with_tree`,
`fsw_dnode_retain` and `fsw_dnode_release` of `filesystems/fsw_core.c`. A dnode is known by its address;
the memory holds the live ones, and to touch another one is out of bounds. What `dnode_free` frees is
the file system's own.
-/

namespace Meridian.Fsw.Dnodes

open Lib.Run

abbrev Addr := Nat

def fswDnodeTypeDir : Int := 2

structure Dnode where
  refcount : UInt32
  parent : Option Addr
  name : List UInt16
  treeId : UInt64
  dnodeId : UInt64
  type : Int
  next : Option Addr
  prev : Option Addr
  deriving DecidableEq, Repr

structure Volume where
  dnodes : AList fun _ : Addr => Dnode
  dnodeHead : Option Addr

def Volume.load (vol : Volume) (dno : Addr) : FswM Dnode :=
  match vol.dnodes.lookup dno with
  | some dnode => .ok dnode
  | none => .error .outOfBounds

def Volume.store (vol : Volume) (dno : Addr) (dnode : Dnode) : Volume :=
  { vol with dnodes := vol.dnodes.insert dno dnode }

def Volume.modify (vol : Volume) (dno : Addr) (f : Dnode → Dnode) : FswM Volume := do
  let dnode ← vol.load dno
  .ok (vol.store dno (f dnode))

/-- The same through a pointer that may be `NULL`. -/
def Volume.modifyIf (vol : Volume) (dno : Option Addr) (f : Dnode → Dnode) : FswM Volume :=
  match dno with
  | some dno => vol.modify dno f
  | none => .ok vol

def Volume.free (vol : Volume) (dno : Addr) : Volume := { vol with dnodes := vol.dnodes.erase dno }

/-! ### The operations -/

def fswDnodeRegister (vol : Volume) (dno : Addr) : FswM Volume := do
  let head := vol.dnodeHead
  let vol ← vol.modify dno fun dnode => { dnode with next := head }
  let vol ← vol.modifyIf head fun dnode => { dnode with prev := some dno }
  let vol ← vol.modify dno fun dnode => { dnode with prev := none }
  .ok { vol with dnodeHead := some dno }

/-- What the pool and `fsw_strdup_coerce` give during one call. -/
structure Host where
  dnode : Option Addr
  name : Except FswStatus (List UInt16)

/-- What `fsw_alloc_zero` gives. -/
def zeroDnode : Dnode :=
  { refcount := 0, parent := none, name := [], treeId := 0, dnodeId := 0, type := 0, next := none, prev := none }

/-- The status or the dnode, and the volume afterwards. -/
abbrev Created := Except FswStatus Addr × Volume

def fswDnodeCreateRootWithTree (host : Host) (vol : Volume) (treeId dnodeId : UInt64) : FswM Created :=
  match host.dnode with
  | none => .ok (.error .outOfMemory, vol)
  | some dno => do
    let vol := vol.store dno { zeroDnode with refcount := 1, treeId, dnodeId, type := fswDnodeTypeDir }
    let vol ← fswDnodeRegister vol dno
    .ok (.ok dno, vol)

def fswDnodeRetain (vol : Volume) (dno : Addr) : FswM Volume :=
  vol.modify dno fun dnode => { dnode with refcount := dnode.refcount + 1 }

/-- The search of the volume's list for the numbers. -/
def findDnode (vol : Volume) (treeId dnodeId : UInt64) : Nat → Option Addr → FswM (Option Addr)
  | _, none => .ok none
  | 0, some _ => .error .outOfFuel
  | fuel + 1, some dno => do
    let dnode ← vol.load dno
    if dnode.dnodeId = dnodeId ∧ dnode.treeId = treeId then .ok (some dno)
    else findDnode vol treeId dnodeId fuel dnode.next

/-- No list has more nodes than there are live ones. -/
def Volume.fuel (vol : Volume) : Nat := vol.dnodes.keys.length

def fswDnodeCreateWithTree (host : Host) (vol : Volume) (parentDno : Addr) (treeId dnodeId : UInt64)
    (type : Int) : FswM Created := do
  let found ← findDnode vol treeId dnodeId vol.fuel vol.dnodeHead
  match found with
  | some dno =>
    let vol ← fswDnodeRetain vol dno
    .ok (.ok dno, vol)
  | none =>
    match host.dnode with
    | none => .ok (.error .outOfMemory, vol)
    | some dno =>
      let vol ← fswDnodeRetain (vol.store dno { zeroDnode with parent := some parentDno }) parentDno
      let vol ← vol.modify dno fun dnode => { dnode with treeId, dnodeId, type, refcount := 1 }
      match host.name with
      | .error status => .ok (.error status, vol.free dno)
      | .ok name =>
        let vol ← vol.modify dno fun dnode => { dnode with name }
        let vol ← fswDnodeRegister vol dno
        .ok (.ok dno, vol)

/-- The steps of `fsw_dnode_release` that take the dnode out of the list and free it. -/
def unlinkDnode (vol : Volume) (dno : Addr) (dnode : Dnode) : FswM Volume := do
  let vol ← vol.modifyIf dnode.next fun next => { next with prev := dnode.prev }
  let vol ← vol.modifyIf dnode.prev fun prev => { prev with next := dnode.next }
  let vol := if vol.dnodeHead = some dno then { vol with dnodeHead := dnode.next } else vol
  .ok (vol.free dno)

/-- `fsw_dnode_release`, which calls itself for the parent. -/
def fswDnodeRelease : Nat → Volume → Addr → FswM Volume
  | 0, _, _ => .error .outOfFuel
  | fuel + 1, vol, dno => do
    let dnode ← vol.load dno
    let refcount := dnode.refcount - 1
    let vol := vol.store dno { dnode with refcount }
    if refcount = 0 then
      let vol ← unlinkDnode vol dno dnode
      match dnode.parent with
      | some parentDno => fswDnodeRelease fuel vol parentDno
      | none => .ok vol
    else .ok vol

/-! ### Sequences of calls -/

inductive Call where
  | createRoot (treeId dnodeId : UInt64) (host : Host)
  | create (parentDno : Addr) (treeId dnodeId : UInt64) (type : Int) (host : Host)
  | retain (dno : Addr)
  | release (dno : Addr)

/-- The volume, and the handles that are out, which are not stored by the program. -/
structure Used where
  vol : Volume
  handles : List Addr

def Used.created (st : Used) : Created → Used
  | (.ok dno, vol) => { vol, handles := dno :: st.handles }
  | (.error _, vol) => { st with vol }

def Used.call (st : Used) : Call → FswM Used
  | .createRoot treeId dnodeId host => do
    let created ← fswDnodeCreateRootWithTree host st.vol treeId dnodeId
    .ok (st.created created)
  | .create parentDno treeId dnodeId type host => do
    let created ← fswDnodeCreateWithTree host st.vol parentDno treeId dnodeId type
    .ok (st.created created)
  | .retain dno => do
    let vol ← fswDnodeRetain st.vol dno
    .ok { vol, handles := dno :: st.handles }
  | .release dno => do
    let vol ← fswDnodeRelease st.vol.fuel st.vol dno
    .ok { vol, handles := st.handles.erase dno }

/-- A run goes on until a fault. -/
def step (st : FswM Used) (call : Call) : FswM Used := st.bind (·.call call)

end Meridian.Fsw.Dnodes
