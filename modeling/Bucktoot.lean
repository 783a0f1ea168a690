import Bucktoot.Verified.WhileLoop
import Bucktoot.Verified.LittleEndian
import Bucktoot.Verified.StepSystem
import Bucktoot.Verified.FirstSlot
import Bucktoot.Verified.Saturate
import Bucktoot.Verified.Events
import Bucktoot.Verified.Wrap
import Bucktoot.Verified.Sweep
import Bucktoot.Verified.Limbs
import Bucktoot.Verified.Words
import Bucktoot.Ports.ReadWave
import Bucktoot.Ports.ReadWaveWalk
import Bucktoot.Ports.ReadWaveForward
import Bucktoot.Ports.ReadWaveSound
import Bucktoot.Ports.ReadWaveFormat
import Bucktoot.Ports.Mixer
import Bucktoot.Ports.MixerTrack
import Bucktoot.Ports.MixerExact
import Bucktoot.Ports.MixerOutput
import Bucktoot.Ports.MixerSum
import Bucktoot.Ports.VoicePool
import Bucktoot.Ports.VoicePoolRuns
import Bucktoot.Ports.MixerSafety
import Bucktoot.Ports.LoopRegion
import Bucktoot.Ports.DeviceBuffer
import Bucktoot.Ports.WriteWave
import Bucktoot.Ports.LoadWavs
import Bucktoot.Ports.VoiceStart
import Bucktoot.Ports.VoiceEnds
import Bucktoot.Ports.HotReload
import Bucktoot.Ports.HotReloadSafety
import Bucktoot.Ports.HotReloadEdits
import Bucktoot.Ports.KeyTable
import Bucktoot.Ports.KeyTableRuns
import Bucktoot.Ports.Entities
import Bucktoot.Ports.MovePlayer
import Bucktoot.Ports.MovePlayerRuns
import Bucktoot.Ports.MovePlayerSpeed
import Bucktoot.Ports.Clock
import Bucktoot.Ports.TickMeasure
import Bucktoot.Ports.DrawEntities
import Bucktoot.Ports.LiveKeys
import Bucktoot.Ports.Playback
import Bucktoot.Ports.HotReloadProgress
import Bucktoot.Ports.AudioThreads
import Bucktoot.Ports.Libtcc1
import Bucktoot.Ports.GenOpl
import Bucktoot.Ports.GenOp
import Bucktoot.Ports.GenExpr
import Bucktoot.Ports.GenExprConst
import Bucktoot.Verified.Ranges
import Bucktoot.Ports.Switch
import Bucktoot.Verified.Chains
import Bucktoot.Ports.SymbolTable
import Bucktoot.Ports.SymbolTableSound
import Bucktoot.Ports.SymbolResolve
import Bucktoot.Ports.SymbolTableRuns
import Bucktoot.Ports.SymbolLink
