import AionFastVM.Library.Overlay
import AionFastVM.Library.Budget
import AionFastVM.Jit.LocalStack
import AionFastVM.Jit.StackRefinement
import AionFastVM.Jit.Instruction
import AionFastVM.Jit.GasMeter
import AionFastVM.Jit.GasBatching
import AionFastVM.Library.ByteCodec
import AionFastVM.Jni.Context
import AionFastVM.Jit.Call
import AionFastVM.Jni.Message
import AionFastVM.Jni.Result
import AionFastVM.Library.JavaBytes
import AionFastVM.Solidity.Codec
import AionFastVM.Solidity.Words
import AionFastVM.Solidity.RoundTrip
import AionFastVM.Jit.CallGas
import AionFastVM.Jit.GasBound
import AionFastVM.Jit.Execute
import AionFastVM.Jit.Push
import AionFastVM.Jit.Blocks
import AionFastVM.Jit.Bitwise
import AionFastVM.Jit.Arith128
import AionFastVM.Jit.Memory
import AionFastVM.Jit.NestedExecute
import AionFastVM.Jit.HostWords
import AionFastVM.Jit.StaticCall
import AionFastVM.Jni.Storage
import AionFastVM.Solc.StorageLayout
import AionFastVM.Solc.Assembly
import AionFastVM.Solc.Compare
import AionFastVM.Solc.Convert
import AionFastVM.Library.BitField
import AionFastVM.Solc.StorageItem
import AionFastVM.Library.DoubleWord
import AionFastVM.Library.Labels
import AionFastVM.Solc.Operators
import AionFastVM.Fvm.ExternalState
import AionFastVM.Fvm.Transaction
import AionFastVM.Fvm.Callback
