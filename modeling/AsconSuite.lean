import AsconSuite.Base.ByteWord
import AsconSuite.Base.ByteMemory
import AsconSuite.Base.BigEndian
import AsconSuite.Base.Transducer
import AsconSuite.Base.Duplex
import AsconSuite.Base.SealedStream
import AsconSuite.Base.RotatedSharing
import AsconSuite.Core.Util
import AsconSuite.Core.State
import AsconSuite.Core.Permute
import AsconSuite.Aead.Common
import AsconSuite.Aead.OneShot
import AsconSuite.Aead.Incremental
import AsconSuite.Masking.Word
import AsconSuite.Masking.Permute
import AsconSuite.Masking.State
import AsconSuite.Masking.Key
import AsconSuite.Aead.Masked
import AsconSuite.Proofs.StateBytes
import AsconSuite.Proofs.MessageLoops
import AsconSuite.Proofs.AeadStream
import AsconSuite.Proofs.InputBytes
import AsconSuite.Proofs.AeadInverse
import AsconSuite.Proofs.NonceNumber
import AsconSuite.Proofs.IncrementalAead
import AsconSuite.Proofs.MaskedWord
import AsconSuite.Proofs.MaskedPermute
import AsconSuite.Proofs.MaskedBytes
import AsconSuite.Proofs.MaskedLoops
import AsconSuite.Proofs.MaskedAead
import AsconSuite.Hash.Xof
import AsconSuite.Base.CrashLogic
import AsconSuite.Base.Ledger
import AsconSuite.Secure.Comum
import AsconSuite.Secure.Emissor
import AsconSuite.Secure.Atalhos
import AsconSuite.Secure.Provisionamento
import AsconSuite.Base.CrashNode
import AsconSuite.Proofs.NvsRules
import AsconSuite.Secure.SenderNode
import AsconSuite.Proofs.SenderRuns
import AsconSuite.Proofs.SenderRules
import AsconSuite.Secure.SenderTasks
import AsconSuite.Proofs.SenderTaskRuns
import AsconSuite.Proofs.SecurePackets
import AsconSuite.Proofs.ReceiverRules
import AsconSuite.Proofs.SecureErrors
import AsconSuite.Proofs.SecureRoundTrip
import AsconSuite.Secure.ReceiverNode
import AsconSuite.Proofs.ReceiverRuns
import AsconSuite.Proofs.ReceiverReplay
import AsconSuite.Base.BitLanes
import AsconSuite.Core.PermuteC32
import AsconSuite.Proofs.SlicedWords
import AsconSuite.Proofs.SlicedPermute
import AsconSuite.Core.DirectXor
import AsconSuite.Proofs.StateRanges
import AsconSuite.Proofs.SlicedBytes
import AsconSuite.Core.Backends
import AsconSuite.Proofs.BackendAgreement
import AsconSuite.Masking.WordC32
import AsconSuite.Masking.WordDirect
import AsconSuite.Proofs.MaskedWordC32
import AsconSuite.Masking.Backends
import AsconSuite.Proofs.MaskedWordDirect
import AsconSuite.Proofs.MaskedWords
import AsconSuite.Base.Sponge
import AsconSuite.Proofs.XofStream
import AsconSuite.Aead.Siv
import AsconSuite.Base.SealedCipher
import AsconSuite.Proofs.Keystream
import AsconSuite.Proofs.SealedCalls
import AsconSuite.Proofs.SivInverse
import AsconSuite.Aead.Isap
import AsconSuite.Proofs.IsapInverse
import AsconSuite.Apps.FileOps
import AsconSuite.Password.Pbkdf2
import AsconSuite.Apps.Asconcrypt
import AsconSuite.Proofs.FileTransfer
import AsconSuite.Proofs.FileLoops
import AsconSuite.Proofs.AsconcryptFormat
import AsconSuite.Proofs.AsconcryptFiles
import AsconSuite.Proofs.AsconcryptOutcomes
import AsconSuite.Mac.Kmac
import AsconSuite.Proofs.InitialStates
import AsconSuite.Proofs.SpongePhases
import AsconSuite.Mac.Prf
import AsconSuite.Proofs.PrfStream
import AsconSuite.Random.Prng
import AsconSuite.Proofs.PrngReseed
import AsconSuite.Base.KeyDerivation
import AsconSuite.Mac.Hmac
import AsconSuite.Proofs.HmacSpec
import AsconSuite.Password.Pbkdf2Hmac
import AsconSuite.Proofs.Pbkdf2Spec
import AsconSuite.Kdf.Hkdf
import AsconSuite.Proofs.HkdfStream
import AsconSuite.Proofs.MaskedKeyRefresh
import AsconSuite.Cpp.Aead
import AsconSuite.Proofs.CppKeys
import AsconSuite.Proofs.CppSessions
import AsconSuite.Base.SharedHandles
import AsconSuite.Cpp.ByteArray
import AsconSuite.Proofs.ByteArrays
import AsconSuite.Base.RegisterCache
import AsconSuite.Tools.RegAlloc
import AsconSuite.Tools.X86Common
import AsconSuite.Proofs.RegAllocCache
import AsconSuite.Proofs.RegAllocRuns
import AsconSuite.Tools.AvrAscon
import AsconSuite.Tools.AvrInterpret
import AsconSuite.Proofs.ByteArrayOrder
import AsconSuite.Proofs.SeedStorage
import AsconSuite.Core.Hex
import AsconSuite.Proofs.HexStrings
import AsconSuite.Apps.AsconcryptNames
import AsconSuite.Proofs.AsconcryptNames
import AsconSuite.Apps.Asconsum
import AsconSuite.Proofs.AsconsumLines
import AsconSuite.Proofs.AsconsumChecks
import AsconSuite.Base.EmitLogic
import AsconSuite.Tools.AvrArithmetic
import AsconSuite.Tools.AvrShifts
import AsconSuite.Proofs.AvrEmission
import AsconSuite.Proofs.AvrRegisters
import AsconSuite.Base.ByteNumber
import AsconSuite.Proofs.AvrSums
import AsconSuite.Proofs.AvrComparisons
import AsconSuite.Proofs.AvrBranches
import AsconSuite.Proofs.AvrSelection
import AsconSuite.Base.BitStrings
import AsconSuite.Proofs.AvrBitShifts
import AsconSuite.Proofs.AvrRotations
import AsconSuite.Proofs.AvrBitRotations
import AsconSuite.Base.MoveRequests
import AsconSuite.Proofs.X86Scheduling
import AsconSuite.Tools.AvrMemory
import AsconSuite.Proofs.AvrMemoryAccess
import AsconSuite.Proofs.AvrMemoryOperations
import AsconSuite.Base.CycleMoves
import AsconSuite.Tools.AvrBitPermute
import AsconSuite.Proofs.AvrBitPermutation
import AsconSuite.Masking.Bounded
import AsconSuite.Proofs.MaskedBounds
import AsconSuite.Base.CodePaths
import AsconSuite.Tools.AvrSession
import AsconSuite.Proofs.AvrPaths
import AsconSuite.Proofs.AvrImmediates
import AsconSuite.Proofs.AvrConventions
import AsconSuite.Tools.AvrSwap
import AsconSuite.Proofs.AvrSwapmove
import AsconSuite.Proofs.AvrSwapmoveForms
import AsconSuite.Proofs.AvrFrames
import AsconSuite.Proofs.AvrSubstitution
import AsconSuite.Proofs.AvrRounds
import AsconSuite.Proofs.AvrPermutationLoop
import AsconSuite.Proofs.ChannelRuns
import AsconSuite.Proofs.FreshPackets
import AsconSuite.Base.Assembly
import AsconSuite.Tools.NativeState
import AsconSuite.Tools.RiscV64
import AsconSuite.Proofs.NativeState
import AsconSuite.Proofs.RiscV64Permutation
import AsconSuite.Base.RotationSums
import AsconSuite.Proofs.PermuteInverse
import AsconSuite.Base.Hiding
import AsconSuite.Proofs.MaskedBijection
import AsconSuite.Proofs.MaskedUniform
import AsconSuite.Kdf.Kdf
import AsconSuite.Mac.Kmaca
import AsconSuite.Proofs.KeyedModes
import AsconSuite.Random.TrngMixer
import AsconSuite.Proofs.TrngMixer
import AsconSuite.Proofs.Armv8aPermutation
import AsconSuite.Proofs.EcbInverse
import AsconSuite.Proofs.PrngReplay
