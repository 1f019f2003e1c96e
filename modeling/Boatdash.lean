import Boatdash.Lib.Machine
import Boatdash.Lib.Slots
import Boatdash.Lib.Registry
import Boatdash.Lib.Handles
import Boatdash.Lib.Bitmap
import Boatdash.Lib.Crc
import Boatdash.Lib.Ruler
import Boatdash.Lib.SkipList
import Boatdash.Lib.Prog
import Boatdash.Lib.Overwrite
import Boatdash.Lib.CString
import Boatdash.Lib.WebSocket
import Boatdash.Spec.Idf
import Boatdash.Spec.HttpUi
import Boatdash.Spec.Relays
import Boatdash.Spec.Connection
import Boatdash.Spec.Sessions
import Boatdash.Spec.Interleave
import Boatdash.Spec.Config
import Boatdash.Spec.Apsta
import Boatdash.Spec.App
import Boatdash.Spec.Lfs.Config
import Boatdash.Spec.Lfs.Util
import Boatdash.Spec.Lfs.Alloc
import Boatdash.Spec.Lfs.Volume
import Boatdash.Spec.Lfs.Ctz
import Boatdash.Spec.Lfs.File
import Boatdash.Spec.Lfs.Calls
import Boatdash.Spec.Lfs.Boots
import Boatdash.Proof.Table
import Boatdash.Proof.Refine
import Boatdash.Proof.Sessions
import Boatdash.Proof.Capacity
import Boatdash.Proof.Stale
import Boatdash.Proof.Recovery
import Boatdash.Proof.Listening
import Boatdash.Proof.Interleave
import Boatdash.Proof.Delivery
import Boatdash.Proof.Evict
import Boatdash.Proof.Routing
import Boatdash.Proof.Relays
import Boatdash.Proof.Framing
import Boatdash.Proof.Config
import Boatdash.Proof.Handles
import Boatdash.Proof.Reader
import Boatdash.Proof.Boot
import Boatdash.Proof.Apsta
import Boatdash.Proof.Station
import Boatdash.Proof.AccessPoint
import Boatdash.Proof.Settings
import Boatdash.Proof.Firmware
import Boatdash.Proof.Lfs.Alloc
import Boatdash.Proof.Lfs.Crc
import Boatdash.Proof.Lfs.Index
import Boatdash.Proof.Lfs.Volume
import Boatdash.Proof.Lfs.Find
import Boatdash.Proof.Lfs.Free
import Boatdash.Proof.Lfs.Extend
import Boatdash.Proof.Lfs.Lookup
import Boatdash.Proof.Lfs.Cursor
import Boatdash.Proof.Lfs.Write
import Boatdash.Proof.Lfs.Content
import Boatdash.Proof.Lfs.Read
import Boatdash.Proof.Lfs.Flush
import Boatdash.Proof.Lfs.Opened
import Boatdash.Proof.Lfs.Change
import Boatdash.Proof.Lfs.Calls
import Boatdash.Proof.Lfs.Boots
