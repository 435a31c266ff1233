import IrisMpc.RustCore
import IrisMpc.Bincode.Reader
import IrisMpc.Bincode.Laws
import IrisMpc.Bincode.Accepts
import IrisMpc.Sync.SyncNccl
import IrisMpc.Sync.Serialize
import IrisMpc.Sync.Round
import IrisMpc.Network.Value
import IrisMpc.Network.RoundTrip
import IrisMpc.Hex
import IrisMpc.Nccl.IdWrapper
import IrisMpc.Nccl.HexString
import IrisMpc.Nccl.Exchange
import IrisMpc.Sync.Rollback
import IrisMpc.Sync.Barrier
import IrisMpc.Threshold.Shares
import IrisMpc.Threshold.Open
import IrisMpc.Threshold.Reference
import IrisMpc.Threshold.Pipeline
import IrisMpc.Smpc.DecryptShare
import IrisMpc.Smpc.FetchShare
import IrisMpc.Upgrade.Config
import IrisMpc.Client.Checker
import IrisMpc.Client.Locks
import IrisMpc.Client.HonestServer
