import PsxRecomp.Library.Transducer
import PsxRecomp.Timers.Advance
import PsxRecomp.Dma.Advance
import PsxRecomp.Dma.Deadline
import PsxRecomp.Cycles.Refinement
import PsxRecomp.Cycles.IdleLanding
import PsxRecomp.Cycles.Uncharged
import PsxRecomp.Library.LinkedPath
import PsxRecomp.MemoryCard.Editing
import PsxRecomp.R3000.Agreement
import PsxRecomp.R3000.LoadDelay
import PsxRecomp.Pipeline.Elision
import PsxRecomp.Mods.InflateComplete
import PsxRecomp.Mods.MainApplied
import PsxRecomp.Mods.DiscPatched
import PsxRecomp.Gte.FastPaths
import PsxRecomp.Mods.EffectiveSelections
import PsxRecomp.Cdrom.Protocol
import PsxRecomp.Interrupts.Mirror
import PsxRecomp.Dma.Channels
import PsxRecomp.Sio.Transactions
import PsxRecomp.Gpu.Mirror
import PsxRecomp.DataShards.Equivalence
import PsxRecomp.Memory.BlessSound
import PsxRecomp.Memory.GuardSound
import PsxRecomp.Timers.Deadline
import PsxRecomp.Dma.NodeLimit
import PsxRecomp.MemoryCard.SingleSave
import PsxRecomp.Discovery.Closed
import PsxRecomp.Analysis.Partition
import PsxRecomp.Mdec.Idct
import PsxRecomp.Dma.IrqEstimate
import PsxRecomp.BootState.VramMirror
import PsxRecomp.Mods.Transactions
import PsxRecomp.Cdrom.Deadlines
import PsxRecomp.Mdec.Burst
import PsxRecomp.Spu.Pitch
import PsxRecomp.Spu.Reverb
import PsxRecomp.Spu.CdInput
import PsxRecomp.Spu.SampleClock
import PsxRecomp.Rewind.Invariant
import PsxRecomp.Segments.Variants
import PsxRecomp.Mods.ReplacedFiles
import PsxRecomp.Sio.Acknowledge
import PsxRecomp.Sio.PresenceFlag
import PsxRecomp.Timers.VBlankClock
import PsxRecomp.Gpu.PassJournal
import PsxRecomp.Gpu.Watertight
import PsxRecomp.Gpu.Transfers
import PsxRecomp.Mmio.Stores
import PsxRecomp.Overlays.Lookups
import PsxRecomp.Overlays.Activations
import PsxRecomp.RenderPass.LatePackets
import PsxRecomp.RenderPass.Retarget
import PsxRecomp.Lobby.WebSocket
import PsxRecomp.RenderPass.Splice
import PsxRecomp.MemoryCard.Publication
import PsxRecomp.Overlays.Capture
import PsxRecomp.DataShards.TouchedPages
import PsxRecomp.Cdrom.CueLayout
import PsxRecomp.Cdrom.IsoDirectory
import PsxRecomp.Discovery.AddressKeys
import PsxRecomp.RenderThread.Interleavings
