import QuantaDB.Word
import QuantaDB.HashmapKVStore
import QuantaDB.Coordinator
import QuantaDB.MemStreamIo
import QuantaDB.MemStreamRoundTrip
import QuantaDB.LogCabinStorage
import QuantaDB.BecomeLeader
import QuantaDB.LogCabinCalls
import QuantaDB.LeaseRenewer
import QuantaDB.MemStreamSoundness
import QuantaDB.HashmapKVStoreLifecycle
