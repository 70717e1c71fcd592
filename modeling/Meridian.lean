import Meridian.Bcachefs.ExtentPtr
import Meridian.Bcachefs.Mount
import Meridian.Bcachefs.Unpack
import Meridian.Boot.CleanNvram
import Meridian.Boot.DefaultEntry
import Meridian.Btrfs.ChunkReads
import Meridian.Btrfs.Chunks
import Meridian.Btrfs.Crc32c
import Meridian.Btrfs.Directories
import Meridian.Btrfs.DirectoryReads
import Meridian.Btrfs.Layout
import Meridian.Btrfs.LogicalReads
import Meridian.Btrfs.ParityReads
import Meridian.Btrfs.Redundancy
import Meridian.Btrfs.TreeSearch
import Meridian.Btrfs.Trees
import Meridian.Btrfs.Volume
import Meridian.Btrfs.VolumeReads
import Meridian.Cache.AllOrNothing
import Meridian.Config.CsvList
import Meridian.Config.Disabled
import Meridian.Config.FstabOptions
import Meridian.Config.HexLists
import Meridian.Config.HidePreboot
import Meridian.Config.MacroLines
import Meridian.Config.MergeItems
import Meridian.Config.QuotedTokens
import Meridian.Config.SourceLines
import Meridian.Config.SubMenus
import Meridian.Config.TokenUses
import Meridian.Conn.EditOptions
import Meridian.Conn.EntryText
import Meridian.Conn.Invariant
import Meridian.Conn.Isqrt
import Meridian.Conn.Launch
import Meridian.Conn.Pointer
import Meridian.Conn.SplashRle
import Meridian.Conn.Widgets
import Meridian.Discovery.Bls
import Meridian.Discovery.Bootable
import Meridian.Discovery.DontScan
import Meridian.Discovery.Guids
import Meridian.Discovery.Initrd
import Meridian.Discovery.LoaderOrder
import Meridian.Discovery.ScanFor
import Meridian.Discovery.SnapshotIds
import Meridian.Discovery.SnapshotOptions
import Meridian.Ext.BlockMaps
import Meridian.Ext.Directories
import Meridian.Ext.DirectoryCalls
import Meridian.Ext.ExtentTrees
import Meridian.Ext.Files
import Meridian.Ext.Inodes
import Meridian.Fsw.BcacheRun
import Meridian.Fsw.BlockFiles
import Meridian.Fsw.DnodeRefs
import Meridian.Fsw.FileProtocol
import Meridian.Fsw.HandleRuns
import Meridian.Fsw.LookupWalk
import Meridian.Fsw.ReadCache
import Meridian.Fsw.ShandleRead
import Meridian.Install.BootOptionRuns
import Meridian.Install.BootOrder
import Meridian.Install.CopyStep
import Meridian.Install.OrderEdits
import Meridian.Install.PickEsp
import Meridian.Lib.Attempt
import Meridian.Lib.Crc
import Meridian.Lib.Indirect
import Meridian.Lib.Largest
import Meridian.Lib.Runs
import Meridian.Lib.SearchTree
import Meridian.Limine.Arena
import Meridian.Limine.Clock
import Meridian.Limine.Completion
import Meridian.Limine.ElfBounds
import Meridian.Limine.HandedMapped
import Meridian.Limine.Relocations
import Meridian.Limine.Scan
import Meridian.Limine.TablePool
import Meridian.Loaders.BootArgsRuns
import Meridian.Loaders.ValidLoader
import Meridian.Log.Growth
import Meridian.Menu.ListGrowth
import Meridian.Platform.GfxRestore
import Meridian.Platform.NormaliseCall
import Meridian.Policy.CsrRotation
import Meridian.Storage.DirCache
import Meridian.Storage.DirReads
import Meridian.Storage.EmulatedVars
import Meridian.Storage.FindMem
import Meridian.Storage.GptFound
import Meridian.Storage.PathParts
import Meridian.Storage.Wildcard
import Meridian.Text.Find
