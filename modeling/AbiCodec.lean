import AbiCodec.Contract.Schema
import AbiCodec.JsonCodec
import AbiCodec.Log
import AbiCodec.Wire.ReaderTree
import AbiCodec.Proofs.ArrayRoom
import AbiCodec.Proofs.DecodeSafety
import AbiCodec.Proofs.HookRewrite
import AbiCodec.Proofs.Inflation
import AbiCodec.Proofs.JsonLoop
import AbiCodec.Proofs.NestingLimit
import AbiCodec.Proofs.ReaderRuns
import AbiCodec.Proofs.SignatureFormat
import AbiCodec.Proofs.StaticSize
import AbiCodec.Proofs.Truncation
import AbiCodec.Proofs.PrintedType
import AbiCodec.Proofs.ArraySuffixes
import AbiCodec.Proofs.ParameterObjects
import AbiCodec.Proofs.LayoutText
import AbiCodec.Proofs.FailedEncoding
import AbiCodec.Proofs.KeyedTuples
import AbiCodec.Proofs.CallData
import AbiCodec.Proofs.EventLogs
import AbiCodec.Proofs.NumberSpellings
import AbiCodec.Proofs.JsonTuples
import AbiCodec.Proofs.AddressText
import AbiCodec.Proofs.SignatureText
import AbiCodec.Proofs.ZeroValues
import AbiCodec.Proofs.HeadAgreement
import AbiCodec.Proofs.ArrayGuards
