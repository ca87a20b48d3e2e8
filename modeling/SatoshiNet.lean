import SatoshiNet.Chain.Storage
import SatoshiNet.Chain.Conservation
import SatoshiNet.Contract.Conserved
import SatoshiNet.Chain.AnchorInvoice
import SatoshiNet.Mining.TemplateOrder
import SatoshiNet.Dkvs.BatchAtomic
import SatoshiNet.Dkvs.PathTransfer
import SatoshiNet.Template.Engines
import SatoshiNet.Agent.PredictionExact
import SatoshiNet.Evm.Persist
import SatoshiNet.Wire.TxForm
import SatoshiNet.Template.ParamRoundTrip
import SatoshiNet.Chain.Stored
import SatoshiNet.Template.AutopayStatus
import SatoshiNet.Contract.Executor
import SatoshiNet.Contract.Carrier
import SatoshiNet.Mining.NullData
import SatoshiNet.Dkvs.MergeOrder
import SatoshiNet.Mining.Sequence
import SatoshiNet.Dkvs.NodeSync
import SatoshiNet.Dkvs.SyncAuth
