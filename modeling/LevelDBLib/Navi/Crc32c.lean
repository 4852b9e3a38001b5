/-
This file models `util/crc32c.cpp`, the checksum of log records and table blocks. The code
takes four bytes at a time through four tables once its buffer is aligned; over it stands
the register that the tables stand for, one bit at a time. The two agree on every buffer at
every address, so a checksum can be continued, and a stored checksum tells two buffers apart
that differ in one stretch of at most 32 bits.
-/

import LevelDBLib.Navi.Coding
import LevelDBLib.Library.ShiftRegisters

namespace LevelDBLib.Navi

open KvDB ShiftRegisters Coding

namespace Crc32c

/-! ### The code -/

def table0_ : List (BitVec 32) := [
  0x00000000#32, 0xf26b8303#32, 0xe13b70f7#32, 0x1350f3f4#32, 0xc79a971f#32, 0x35f1141c#32,
  0x26a1e7e8#32, 0xd4ca64eb#32, 0x8ad958cf#32, 0x78b2dbcc#32, 0x6be22838#32, 0x9989ab3b#32,
  0x4d43cfd0#32, 0xbf284cd3#32, 0xac78bf27#32, 0x5e133c24#32, 0x105ec76f#32, 0xe235446c#32,
  0xf165b798#32, 0x030e349b#32, 0xd7c45070#32, 0x25afd373#32, 0x36ff2087#32, 0xc494a384#32,
  0x9a879fa0#32, 0x68ec1ca3#32, 0x7bbcef57#32, 0x89d76c54#32, 0x5d1d08bf#32, 0xaf768bbc#32,
  0xbc267848#32, 0x4e4dfb4b#32, 0x20bd8ede#32, 0xd2d60ddd#32, 0xc186fe29#32, 0x33ed7d2a#32,
  0xe72719c1#32, 0x154c9ac2#32, 0x061c6936#32, 0xf477ea35#32, 0xaa64d611#32, 0x580f5512#32,
  0x4b5fa6e6#32, 0xb93425e5#32, 0x6dfe410e#32, 0x9f95c20d#32, 0x8cc531f9#32, 0x7eaeb2fa#32,
  0x30e349b1#32, 0xc288cab2#32, 0xd1d83946#32, 0x23b3ba45#32, 0xf779deae#32, 0x05125dad#32,
  0x1642ae59#32, 0xe4292d5a#32, 0xba3a117e#32, 0x4851927d#32, 0x5b016189#32, 0xa96ae28a#32,
  0x7da08661#32, 0x8fcb0562#32, 0x9c9bf696#32, 0x6ef07595#32, 0x417b1dbc#32, 0xb3109ebf#32,
  0xa0406d4b#32, 0x522bee48#32, 0x86e18aa3#32, 0x748a09a0#32, 0x67dafa54#32, 0x95b17957#32,
  0xcba24573#32, 0x39c9c670#32, 0x2a993584#32, 0xd8f2b687#32, 0x0c38d26c#32, 0xfe53516f#32,
  0xed03a29b#32, 0x1f682198#32, 0x5125dad3#32, 0xa34e59d0#32, 0xb01eaa24#32, 0x42752927#32,
  0x96bf4dcc#32, 0x64d4cecf#32, 0x77843d3b#32, 0x85efbe38#32, 0xdbfc821c#32, 0x2997011f#32,
  0x3ac7f2eb#32, 0xc8ac71e8#32, 0x1c661503#32, 0xee0d9600#32, 0xfd5d65f4#32, 0x0f36e6f7#32,
  0x61c69362#32, 0x93ad1061#32, 0x80fde395#32, 0x72966096#32, 0xa65c047d#32, 0x5437877e#32,
  0x4767748a#32, 0xb50cf789#32, 0xeb1fcbad#32, 0x197448ae#32, 0x0a24bb5a#32, 0xf84f3859#32,
  0x2c855cb2#32, 0xdeeedfb1#32, 0xcdbe2c45#32, 0x3fd5af46#32, 0x7198540d#32, 0x83f3d70e#32,
  0x90a324fa#32, 0x62c8a7f9#32, 0xb602c312#32, 0x44694011#32, 0x5739b3e5#32, 0xa55230e6#32,
  0xfb410cc2#32, 0x092a8fc1#32, 0x1a7a7c35#32, 0xe811ff36#32, 0x3cdb9bdd#32, 0xceb018de#32,
  0xdde0eb2a#32, 0x2f8b6829#32, 0x82f63b78#32, 0x709db87b#32, 0x63cd4b8f#32, 0x91a6c88c#32,
  0x456cac67#32, 0xb7072f64#32, 0xa457dc90#32, 0x563c5f93#32, 0x082f63b7#32, 0xfa44e0b4#32,
  0xe9141340#32, 0x1b7f9043#32, 0xcfb5f4a8#32, 0x3dde77ab#32, 0x2e8e845f#32, 0xdce5075c#32,
  0x92a8fc17#32, 0x60c37f14#32, 0x73938ce0#32, 0x81f80fe3#32, 0x55326b08#32, 0xa759e80b#32,
  0xb4091bff#32, 0x466298fc#32, 0x1871a4d8#32, 0xea1a27db#32, 0xf94ad42f#32, 0x0b21572c#32,
  0xdfeb33c7#32, 0x2d80b0c4#32, 0x3ed04330#32, 0xccbbc033#32, 0xa24bb5a6#32, 0x502036a5#32,
  0x4370c551#32, 0xb11b4652#32, 0x65d122b9#32, 0x97baa1ba#32, 0x84ea524e#32, 0x7681d14d#32,
  0x2892ed69#32, 0xdaf96e6a#32, 0xc9a99d9e#32, 0x3bc21e9d#32, 0xef087a76#32, 0x1d63f975#32,
  0x0e330a81#32, 0xfc588982#32, 0xb21572c9#32, 0x407ef1ca#32, 0x532e023e#32, 0xa145813d#32,
  0x758fe5d6#32, 0x87e466d5#32, 0x94b49521#32, 0x66df1622#32, 0x38cc2a06#32, 0xcaa7a905#32,
  0xd9f75af1#32, 0x2b9cd9f2#32, 0xff56bd19#32, 0x0d3d3e1a#32, 0x1e6dcdee#32, 0xec064eed#32,
  0xc38d26c4#32, 0x31e6a5c7#32, 0x22b65633#32, 0xd0ddd530#32, 0x0417b1db#32, 0xf67c32d8#32,
  0xe52cc12c#32, 0x1747422f#32, 0x49547e0b#32, 0xbb3ffd08#32, 0xa86f0efc#32, 0x5a048dff#32,
  0x8ecee914#32, 0x7ca56a17#32, 0x6ff599e3#32, 0x9d9e1ae0#32, 0xd3d3e1ab#32, 0x21b862a8#32,
  0x32e8915c#32, 0xc083125f#32, 0x144976b4#32, 0xe622f5b7#32, 0xf5720643#32, 0x07198540#32,
  0x590ab964#32, 0xab613a67#32, 0xb831c993#32, 0x4a5a4a90#32, 0x9e902e7b#32, 0x6cfbad78#32,
  0x7fab5e8c#32, 0x8dc0dd8f#32, 0xe330a81a#32, 0x115b2b19#32, 0x020bd8ed#32, 0xf0605bee#32,
  0x24aa3f05#32, 0xd6c1bc06#32, 0xc5914ff2#32, 0x37faccf1#32, 0x69e9f0d5#32, 0x9b8273d6#32,
  0x88d28022#32, 0x7ab90321#32, 0xae7367ca#32, 0x5c18e4c9#32, 0x4f48173d#32, 0xbd23943e#32,
  0xf36e6f75#32, 0x0105ec76#32, 0x12551f82#32, 0xe03e9c81#32, 0x34f4f86a#32, 0xc69f7b69#32,
  0xd5cf889d#32, 0x27a40b9e#32, 0x79b737ba#32, 0x8bdcb4b9#32, 0x988c474d#32, 0x6ae7c44e#32,
  0xbe2da0a5#32, 0x4c4623a6#32, 0x5f16d052#32, 0xad7d5351#32]

def table1_ : List (BitVec 32) := [
  0x00000000#32, 0x13a29877#32, 0x274530ee#32, 0x34e7a899#32, 0x4e8a61dc#32, 0x5d28f9ab#32,
  0x69cf5132#32, 0x7a6dc945#32, 0x9d14c3b8#32, 0x8eb65bcf#32, 0xba51f356#32, 0xa9f36b21#32,
  0xd39ea264#32, 0xc03c3a13#32, 0xf4db928a#32, 0xe7790afd#32, 0x3fc5f181#32, 0x2c6769f6#32,
  0x1880c16f#32, 0x0b225918#32, 0x714f905d#32, 0x62ed082a#32, 0x560aa0b3#32, 0x45a838c4#32,
  0xa2d13239#32, 0xb173aa4e#32, 0x859402d7#32, 0x96369aa0#32, 0xec5b53e5#32, 0xfff9cb92#32,
  0xcb1e630b#32, 0xd8bcfb7c#32, 0x7f8be302#32, 0x6c297b75#32, 0x58ced3ec#32, 0x4b6c4b9b#32,
  0x310182de#32, 0x22a31aa9#32, 0x1644b230#32, 0x05e62a47#32, 0xe29f20ba#32, 0xf13db8cd#32,
  0xc5da1054#32, 0xd6788823#32, 0xac154166#32, 0xbfb7d911#32, 0x8b507188#32, 0x98f2e9ff#32,
  0x404e1283#32, 0x53ec8af4#32, 0x670b226d#32, 0x74a9ba1a#32, 0x0ec4735f#32, 0x1d66eb28#32,
  0x298143b1#32, 0x3a23dbc6#32, 0xdd5ad13b#32, 0xcef8494c#32, 0xfa1fe1d5#32, 0xe9bd79a2#32,
  0x93d0b0e7#32, 0x80722890#32, 0xb4958009#32, 0xa737187e#32, 0xff17c604#32, 0xecb55e73#32,
  0xd852f6ea#32, 0xcbf06e9d#32, 0xb19da7d8#32, 0xa23f3faf#32, 0x96d89736#32, 0x857a0f41#32,
  0x620305bc#32, 0x71a19dcb#32, 0x45463552#32, 0x56e4ad25#32, 0x2c896460#32, 0x3f2bfc17#32,
  0x0bcc548e#32, 0x186eccf9#32, 0xc0d23785#32, 0xd370aff2#32, 0xe797076b#32, 0xf4359f1c#32,
  0x8e585659#32, 0x9dface2e#32, 0xa91d66b7#32, 0xbabffec0#32, 0x5dc6f43d#32, 0x4e646c4a#32,
  0x7a83c4d3#32, 0x69215ca4#32, 0x134c95e1#32, 0x00ee0d96#32, 0x3409a50f#32, 0x27ab3d78#32,
  0x809c2506#32, 0x933ebd71#32, 0xa7d915e8#32, 0xb47b8d9f#32, 0xce1644da#32, 0xddb4dcad#32,
  0xe9537434#32, 0xfaf1ec43#32, 0x1d88e6be#32, 0x0e2a7ec9#32, 0x3acdd650#32, 0x296f4e27#32,
  0x53028762#32, 0x40a01f15#32, 0x7447b78c#32, 0x67e52ffb#32, 0xbf59d487#32, 0xacfb4cf0#32,
  0x981ce469#32, 0x8bbe7c1e#32, 0xf1d3b55b#32, 0xe2712d2c#32, 0xd69685b5#32, 0xc5341dc2#32,
  0x224d173f#32, 0x31ef8f48#32, 0x050827d1#32, 0x16aabfa6#32, 0x6cc776e3#32, 0x7f65ee94#32,
  0x4b82460d#32, 0x5820de7a#32, 0xfbc3faf9#32, 0xe861628e#32, 0xdc86ca17#32, 0xcf245260#32,
  0xb5499b25#32, 0xa6eb0352#32, 0x920cabcb#32, 0x81ae33bc#32, 0x66d73941#32, 0x7575a136#32,
  0x419209af#32, 0x523091d8#32, 0x285d589d#32, 0x3bffc0ea#32, 0x0f186873#32, 0x1cbaf004#32,
  0xc4060b78#32, 0xd7a4930f#32, 0xe3433b96#32, 0xf0e1a3e1#32, 0x8a8c6aa4#32, 0x992ef2d3#32,
  0xadc95a4a#32, 0xbe6bc23d#32, 0x5912c8c0#32, 0x4ab050b7#32, 0x7e57f82e#32, 0x6df56059#32,
  0x1798a91c#32, 0x043a316b#32, 0x30dd99f2#32, 0x237f0185#32, 0x844819fb#32, 0x97ea818c#32,
  0xa30d2915#32, 0xb0afb162#32, 0xcac27827#32, 0xd960e050#32, 0xed8748c9#32, 0xfe25d0be#32,
  0x195cda43#32, 0x0afe4234#32, 0x3e19eaad#32, 0x2dbb72da#32, 0x57d6bb9f#32, 0x447423e8#32,
  0x70938b71#32, 0x63311306#32, 0xbb8de87a#32, 0xa82f700d#32, 0x9cc8d894#32, 0x8f6a40e3#32,
  0xf50789a6#32, 0xe6a511d1#32, 0xd242b948#32, 0xc1e0213f#32, 0x26992bc2#32, 0x353bb3b5#32,
  0x01dc1b2c#32, 0x127e835b#32, 0x68134a1e#32, 0x7bb1d269#32, 0x4f567af0#32, 0x5cf4e287#32,
  0x04d43cfd#32, 0x1776a48a#32, 0x23910c13#32, 0x30339464#32, 0x4a5e5d21#32, 0x59fcc556#32,
  0x6d1b6dcf#32, 0x7eb9f5b8#32, 0x99c0ff45#32, 0x8a626732#32, 0xbe85cfab#32, 0xad2757dc#32,
  0xd74a9e99#32, 0xc4e806ee#32, 0xf00fae77#32, 0xe3ad3600#32, 0x3b11cd7c#32, 0x28b3550b#32,
  0x1c54fd92#32, 0x0ff665e5#32, 0x759baca0#32, 0x663934d7#32, 0x52de9c4e#32, 0x417c0439#32,
  0xa6050ec4#32, 0xb5a796b3#32, 0x81403e2a#32, 0x92e2a65d#32, 0xe88f6f18#32, 0xfb2df76f#32,
  0xcfca5ff6#32, 0xdc68c781#32, 0x7b5fdfff#32, 0x68fd4788#32, 0x5c1aef11#32, 0x4fb87766#32,
  0x35d5be23#32, 0x26772654#32, 0x12908ecd#32, 0x013216ba#32, 0xe64b1c47#32, 0xf5e98430#32,
  0xc10e2ca9#32, 0xd2acb4de#32, 0xa8c17d9b#32, 0xbb63e5ec#32, 0x8f844d75#32, 0x9c26d502#32,
  0x449a2e7e#32, 0x5738b609#32, 0x63df1e90#32, 0x707d86e7#32, 0x0a104fa2#32, 0x19b2d7d5#32,
  0x2d557f4c#32, 0x3ef7e73b#32, 0xd98eedc6#32, 0xca2c75b1#32, 0xfecbdd28#32, 0xed69455f#32,
  0x97048c1a#32, 0x84a6146d#32, 0xb041bcf4#32, 0xa3e32483#32]

def table2_ : List (BitVec 32) := [
  0x00000000#32, 0xa541927e#32, 0x4f6f520d#32, 0xea2ec073#32, 0x9edea41a#32, 0x3b9f3664#32,
  0xd1b1f617#32, 0x74f06469#32, 0x38513ec5#32, 0x9d10acbb#32, 0x773e6cc8#32, 0xd27ffeb6#32,
  0xa68f9adf#32, 0x03ce08a1#32, 0xe9e0c8d2#32, 0x4ca15aac#32, 0x70a27d8a#32, 0xd5e3eff4#32,
  0x3fcd2f87#32, 0x9a8cbdf9#32, 0xee7cd990#32, 0x4b3d4bee#32, 0xa1138b9d#32, 0x045219e3#32,
  0x48f3434f#32, 0xedb2d131#32, 0x079c1142#32, 0xa2dd833c#32, 0xd62de755#32, 0x736c752b#32,
  0x9942b558#32, 0x3c032726#32, 0xe144fb14#32, 0x4405696a#32, 0xae2ba919#32, 0x0b6a3b67#32,
  0x7f9a5f0e#32, 0xdadbcd70#32, 0x30f50d03#32, 0x95b49f7d#32, 0xd915c5d1#32, 0x7c5457af#32,
  0x967a97dc#32, 0x333b05a2#32, 0x47cb61cb#32, 0xe28af3b5#32, 0x08a433c6#32, 0xade5a1b8#32,
  0x91e6869e#32, 0x34a714e0#32, 0xde89d493#32, 0x7bc846ed#32, 0x0f382284#32, 0xaa79b0fa#32,
  0x40577089#32, 0xe516e2f7#32, 0xa9b7b85b#32, 0x0cf62a25#32, 0xe6d8ea56#32, 0x43997828#32,
  0x37691c41#32, 0x92288e3f#32, 0x78064e4c#32, 0xdd47dc32#32, 0xc76580d9#32, 0x622412a7#32,
  0x880ad2d4#32, 0x2d4b40aa#32, 0x59bb24c3#32, 0xfcfab6bd#32, 0x16d476ce#32, 0xb395e4b0#32,
  0xff34be1c#32, 0x5a752c62#32, 0xb05bec11#32, 0x151a7e6f#32, 0x61ea1a06#32, 0xc4ab8878#32,
  0x2e85480b#32, 0x8bc4da75#32, 0xb7c7fd53#32, 0x12866f2d#32, 0xf8a8af5e#32, 0x5de93d20#32,
  0x29195949#32, 0x8c58cb37#32, 0x66760b44#32, 0xc337993a#32, 0x8f96c396#32, 0x2ad751e8#32,
  0xc0f9919b#32, 0x65b803e5#32, 0x1148678c#32, 0xb409f5f2#32, 0x5e273581#32, 0xfb66a7ff#32,
  0x26217bcd#32, 0x8360e9b3#32, 0x694e29c0#32, 0xcc0fbbbe#32, 0xb8ffdfd7#32, 0x1dbe4da9#32,
  0xf7908dda#32, 0x52d11fa4#32, 0x1e704508#32, 0xbb31d776#32, 0x511f1705#32, 0xf45e857b#32,
  0x80aee112#32, 0x25ef736c#32, 0xcfc1b31f#32, 0x6a802161#32, 0x56830647#32, 0xf3c29439#32,
  0x19ec544a#32, 0xbcadc634#32, 0xc85da25d#32, 0x6d1c3023#32, 0x8732f050#32, 0x2273622e#32,
  0x6ed23882#32, 0xcb93aafc#32, 0x21bd6a8f#32, 0x84fcf8f1#32, 0xf00c9c98#32, 0x554d0ee6#32,
  0xbf63ce95#32, 0x1a225ceb#32, 0x8b277743#32, 0x2e66e53d#32, 0xc448254e#32, 0x6109b730#32,
  0x15f9d359#32, 0xb0b84127#32, 0x5a968154#32, 0xffd7132a#32, 0xb3764986#32, 0x1637dbf8#32,
  0xfc191b8b#32, 0x595889f5#32, 0x2da8ed9c#32, 0x88e97fe2#32, 0x62c7bf91#32, 0xc7862def#32,
  0xfb850ac9#32, 0x5ec498b7#32, 0xb4ea58c4#32, 0x11abcaba#32, 0x655baed3#32, 0xc01a3cad#32,
  0x2a34fcde#32, 0x8f756ea0#32, 0xc3d4340c#32, 0x6695a672#32, 0x8cbb6601#32, 0x29faf47f#32,
  0x5d0a9016#32, 0xf84b0268#32, 0x1265c21b#32, 0xb7245065#32, 0x6a638c57#32, 0xcf221e29#32,
  0x250cde5a#32, 0x804d4c24#32, 0xf4bd284d#32, 0x51fcba33#32, 0xbbd27a40#32, 0x1e93e83e#32,
  0x5232b292#32, 0xf77320ec#32, 0x1d5de09f#32, 0xb81c72e1#32, 0xccec1688#32, 0x69ad84f6#32,
  0x83834485#32, 0x26c2d6fb#32, 0x1ac1f1dd#32, 0xbf8063a3#32, 0x55aea3d0#32, 0xf0ef31ae#32,
  0x841f55c7#32, 0x215ec7b9#32, 0xcb7007ca#32, 0x6e3195b4#32, 0x2290cf18#32, 0x87d15d66#32,
  0x6dff9d15#32, 0xc8be0f6b#32, 0xbc4e6b02#32, 0x190ff97c#32, 0xf321390f#32, 0x5660ab71#32,
  0x4c42f79a#32, 0xe90365e4#32, 0x032da597#32, 0xa66c37e9#32, 0xd29c5380#32, 0x77ddc1fe#32,
  0x9df3018d#32, 0x38b293f3#32, 0x7413c95f#32, 0xd1525b21#32, 0x3b7c9b52#32, 0x9e3d092c#32,
  0xeacd6d45#32, 0x4f8cff3b#32, 0xa5a23f48#32, 0x00e3ad36#32, 0x3ce08a10#32, 0x99a1186e#32,
  0x738fd81d#32, 0xd6ce4a63#32, 0xa23e2e0a#32, 0x077fbc74#32, 0xed517c07#32, 0x4810ee79#32,
  0x04b1b4d5#32, 0xa1f026ab#32, 0x4bdee6d8#32, 0xee9f74a6#32, 0x9a6f10cf#32, 0x3f2e82b1#32,
  0xd50042c2#32, 0x7041d0bc#32, 0xad060c8e#32, 0x08479ef0#32, 0xe2695e83#32, 0x4728ccfd#32,
  0x33d8a894#32, 0x96993aea#32, 0x7cb7fa99#32, 0xd9f668e7#32, 0x9557324b#32, 0x3016a035#32,
  0xda386046#32, 0x7f79f238#32, 0x0b899651#32, 0xaec8042f#32, 0x44e6c45c#32, 0xe1a75622#32,
  0xdda47104#32, 0x78e5e37a#32, 0x92cb2309#32, 0x378ab177#32, 0x437ad51e#32, 0xe63b4760#32,
  0x0c158713#32, 0xa954156d#32, 0xe5f54fc1#32, 0x40b4ddbf#32, 0xaa9a1dcc#32, 0x0fdb8fb2#32,
  0x7b2bebdb#32, 0xde6a79a5#32, 0x3444b9d6#32, 0x91052ba8#32]

def table3_ : List (BitVec 32) := [
  0x00000000#32, 0xdd45aab8#32, 0xbf672381#32, 0x62228939#32, 0x7b2231f3#32, 0xa6679b4b#32,
  0xc4451272#32, 0x1900b8ca#32, 0xf64463e6#32, 0x2b01c95e#32, 0x49234067#32, 0x9466eadf#32,
  0x8d665215#32, 0x5023f8ad#32, 0x32017194#32, 0xef44db2c#32, 0xe964b13d#32, 0x34211b85#32,
  0x560392bc#32, 0x8b463804#32, 0x924680ce#32, 0x4f032a76#32, 0x2d21a34f#32, 0xf06409f7#32,
  0x1f20d2db#32, 0xc2657863#32, 0xa047f15a#32, 0x7d025be2#32, 0x6402e328#32, 0xb9474990#32,
  0xdb65c0a9#32, 0x06206a11#32, 0xd725148b#32, 0x0a60be33#32, 0x6842370a#32, 0xb5079db2#32,
  0xac072578#32, 0x71428fc0#32, 0x136006f9#32, 0xce25ac41#32, 0x2161776d#32, 0xfc24ddd5#32,
  0x9e0654ec#32, 0x4343fe54#32, 0x5a43469e#32, 0x8706ec26#32, 0xe524651f#32, 0x3861cfa7#32,
  0x3e41a5b6#32, 0xe3040f0e#32, 0x81268637#32, 0x5c632c8f#32, 0x45639445#32, 0x98263efd#32,
  0xfa04b7c4#32, 0x27411d7c#32, 0xc805c650#32, 0x15406ce8#32, 0x7762e5d1#32, 0xaa274f69#32,
  0xb327f7a3#32, 0x6e625d1b#32, 0x0c40d422#32, 0xd1057e9a#32, 0xaba65fe7#32, 0x76e3f55f#32,
  0x14c17c66#32, 0xc984d6de#32, 0xd0846e14#32, 0x0dc1c4ac#32, 0x6fe34d95#32, 0xb2a6e72d#32,
  0x5de23c01#32, 0x80a796b9#32, 0xe2851f80#32, 0x3fc0b538#32, 0x26c00df2#32, 0xfb85a74a#32,
  0x99a72e73#32, 0x44e284cb#32, 0x42c2eeda#32, 0x9f874462#32, 0xfda5cd5b#32, 0x20e067e3#32,
  0x39e0df29#32, 0xe4a57591#32, 0x8687fca8#32, 0x5bc25610#32, 0xb4868d3c#32, 0x69c32784#32,
  0x0be1aebd#32, 0xd6a40405#32, 0xcfa4bccf#32, 0x12e11677#32, 0x70c39f4e#32, 0xad8635f6#32,
  0x7c834b6c#32, 0xa1c6e1d4#32, 0xc3e468ed#32, 0x1ea1c255#32, 0x07a17a9f#32, 0xdae4d027#32,
  0xb8c6591e#32, 0x6583f3a6#32, 0x8ac7288a#32, 0x57828232#32, 0x35a00b0b#32, 0xe8e5a1b3#32,
  0xf1e51979#32, 0x2ca0b3c1#32, 0x4e823af8#32, 0x93c79040#32, 0x95e7fa51#32, 0x48a250e9#32,
  0x2a80d9d0#32, 0xf7c57368#32, 0xeec5cba2#32, 0x3380611a#32, 0x51a2e823#32, 0x8ce7429b#32,
  0x63a399b7#32, 0xbee6330f#32, 0xdcc4ba36#32, 0x0181108e#32, 0x1881a844#32, 0xc5c402fc#32,
  0xa7e68bc5#32, 0x7aa3217d#32, 0x52a0c93f#32, 0x8fe56387#32, 0xedc7eabe#32, 0x30824006#32,
  0x2982f8cc#32, 0xf4c75274#32, 0x96e5db4d#32, 0x4ba071f5#32, 0xa4e4aad9#32, 0x79a10061#32,
  0x1b838958#32, 0xc6c623e0#32, 0xdfc69b2a#32, 0x02833192#32, 0x60a1b8ab#32, 0xbde41213#32,
  0xbbc47802#32, 0x6681d2ba#32, 0x04a35b83#32, 0xd9e6f13b#32, 0xc0e649f1#32, 0x1da3e349#32,
  0x7f816a70#32, 0xa2c4c0c8#32, 0x4d801be4#32, 0x90c5b15c#32, 0xf2e73865#32, 0x2fa292dd#32,
  0x36a22a17#32, 0xebe780af#32, 0x89c50996#32, 0x5480a32e#32, 0x8585ddb4#32, 0x58c0770c#32,
  0x3ae2fe35#32, 0xe7a7548d#32, 0xfea7ec47#32, 0x23e246ff#32, 0x41c0cfc6#32, 0x9c85657e#32,
  0x73c1be52#32, 0xae8414ea#32, 0xcca69dd3#32, 0x11e3376b#32, 0x08e38fa1#32, 0xd5a62519#32,
  0xb784ac20#32, 0x6ac10698#32, 0x6ce16c89#32, 0xb1a4c631#32, 0xd3864f08#32, 0x0ec3e5b0#32,
  0x17c35d7a#32, 0xca86f7c2#32, 0xa8a47efb#32, 0x75e1d443#32, 0x9aa50f6f#32, 0x47e0a5d7#32,
  0x25c22cee#32, 0xf8878656#32, 0xe1873e9c#32, 0x3cc29424#32, 0x5ee01d1d#32, 0x83a5b7a5#32,
  0xf90696d8#32, 0x24433c60#32, 0x4661b559#32, 0x9b241fe1#32, 0x8224a72b#32, 0x5f610d93#32,
  0x3d4384aa#32, 0xe0062e12#32, 0x0f42f53e#32, 0xd2075f86#32, 0xb025d6bf#32, 0x6d607c07#32,
  0x7460c4cd#32, 0xa9256e75#32, 0xcb07e74c#32, 0x16424df4#32, 0x106227e5#32, 0xcd278d5d#32,
  0xaf050464#32, 0x7240aedc#32, 0x6b401616#32, 0xb605bcae#32, 0xd4273597#32, 0x09629f2f#32,
  0xe6264403#32, 0x3b63eebb#32, 0x59416782#32, 0x8404cd3a#32, 0x9d0475f0#32, 0x4041df48#32,
  0x22635671#32, 0xff26fcc9#32, 0x2e238253#32, 0xf36628eb#32, 0x9144a1d2#32, 0x4c010b6a#32,
  0x5501b3a0#32, 0x88441918#32, 0xea669021#32, 0x37233a99#32, 0xd867e1b5#32, 0x05224b0d#32,
  0x6700c234#32, 0xba45688c#32, 0xa345d046#32, 0x7e007afe#32, 0x1c22f3c7#32, 0xc167597f#32,
  0xc747336e#32, 0x1a0299d6#32, 0x782010ef#32, 0xa565ba57#32, 0xbc65029d#32, 0x6120a825#32,
  0x0302211c#32, 0xde478ba4#32, 0x31035088#32, 0xec46fa30#32, 0x8e647309#32, 0x5321d9b1#32,
  0x4a21617b#32, 0x9764cbc3#32, 0xf54642fa#32, 0x2803e842#32]

/-- The entry of a table at an index. -/
def entry (table : List (BitVec 32)) (index : BitVec 32) : BitVec 32 := table.getD index.toNat 0

/-- `LE_LOAD32`. -/
def LE_LOAD32 (p : Bytes) : BitVec 32 := DecodeFixed32 p

/-- `STEP1`, over the byte `p`. -/
def STEP1 (l : BitVec 32) (p : UInt8) : BitVec 32 :=
  entry table0_ (l &&& 0xff#32 ^^^ p.toBitVec.setWidth 32) ^^^ l >>> 8

/-- `STEP4`, over the first four bytes of `p`. -/
def STEP4 (l : BitVec 32) (p : Bytes) : BitVec 32 :=
  let c := l ^^^ LE_LOAD32 p
  entry table3_ (c &&& 0xff#32) ^^^ entry table2_ (c >>> 8 &&& 0xff#32) ^^^
    entry table1_ (c >>> 16 &&& 0xff#32) ^^^ entry table0_ (c >>> 24)

/-- The loop over four bytes at a time, in so many turns. -/
def fours : Nat → BitVec 32 → Bytes → BitVec 32 × Bytes
  | 0, l, p => (l, p)
  | turns + 1, l, p => fours turns (STEP4 l p) (p.drop 4)

/-- The loop over 16 bytes at a time, in so many turns. -/
def sixteens : Nat → BitVec 32 → Bytes → BitVec 32 × Bytes
  | 0, l, p => (l, p)
  | turns + 1, l, p =>
    sixteens turns (STEP4 (STEP4 (STEP4 (STEP4 l p) (p.drop 4)) (p.drop 8)) (p.drop 12)) (p.drop 16)

/-- `Extend`, over a buffer at an address. -/
def ExtendAt (address : Nat) (crc : BitVec 32) (buf : Bytes) : BitVec 32 :=
  let l := crc ^^^ 0xffffffff#32
  -- the first aligned address may lie past the end of the buffer
  let x := ((address + 3) >>> 2) <<< 2
  let unaligned := if x ≤ address + buf.length then x - address else 0
  let l := (buf.take unaligned).foldl STEP1 l
  let p := buf.drop unaligned
  let (l, p) := sixteens (p.length / 16) l p
  let (l, p) := fours (p.length / 4) l p
  p.foldl STEP1 l ^^^ 0xffffffff#32

/-- `Extend`, over a buffer wherever it lies. -/
def Extend (crc : BitVec 32) (buf : Bytes) : BitVec 32 := ExtendAt 0 crc buf

def Value (data : Bytes) : BitVec 32 := Extend 0 data

def kMaskDelta : BitVec 32 := 0xa282ead8#32

/-- `Mask`, the form in which a checksum is stored. -/
def Mask (crc : BitVec 32) : BitVec 32 := (crc >>> 15 ||| crc <<< 17) + kMaskDelta

def Unmask (masked_crc : BitVec 32) : BitVec 32 :=
  let rot := masked_crc - kMaskDelta
  rot >>> 17 ||| rot <<< 15

/-! ### The register -/

/-- The polynomial of the checksum, its lowest power the highest bit. -/
def polynomial : BitVec 32 := 0x82f63b78#32

/-- The bits of a buffer, each byte from its lowest one. -/
def stream (buf : Bytes) : List Bool :=
  buf.flatMap fun byte => (List.range 8).map byte.toBitVec.getLsbD

/-- The checksum as the register gives it, one bit at a time. -/
def serial (crc : BitVec 32) (buf : Bytes) : BitVec 32 :=
  digest polynomial (crc ^^^ 0xffffffff#32) (stream buf) ^^^ 0xffffffff#32

/-- A table holds its indices a number of places on. -/
def Advances (table : List (BitVec 32)) (places : Nat) : Prop :=
  table = (List.range 256).map fun index => (shift polynomial)^[places] (BitVec.ofNat 32 index)

/-- One place of the register as a number. -/
def shifted (register : Nat) : Nat :=
  Nat.xor (Nat.shiftRight register 1) (Nat.mul 0x82f63b78 (Nat.mod register 2))

theorem toNat_shift (register : BitVec 32) :
    (shift polynomial register).toNat = shifted register.toNat := by
  have numbers : shifted register.toNat =
      register.toNat >>> 1 ^^^ 0x82f63b78 * (register.toNat % 2) := rfl
  have low : register.getLsbD 0 = decide (register.toNat % 2 = 1) := Nat.testBit_zero _
  rw [shift, numbers, low]
  rcases Nat.mod_two_eq_zero_or_one register.toNat with even | odd
  · simp [even]
  · simp [odd, polynomial]

theorem toNat_iterate (places : Nat) (register : BitVec 32) :
    ((shift polynomial)^[places] register).toNat = shifted^[places] register.toNat :=
  (Function.Semiconj.iterate_right toNat_shift places) register

/-- The entries of the first table as numbers, and those of each other one from the one before. -/
theorem tables_entries :
    table0_.map BitVec.toNat = (List.range 256).map shifted^[8] ∧
      table1_.map BitVec.toNat = (table0_.map BitVec.toNat).map shifted^[8] ∧
      table2_.map BitVec.toNat = (table1_.map BitVec.toNat).map shifted^[8] ∧
      table3_.map BitVec.toNat = (table2_.map BitVec.toNat).map shifted^[8] := by
  decide +kernel

theorem map_toNat_injective {one two : List (BitVec 32)}
    (same : one.map BitVec.toNat = two.map BitVec.toNat) : one = two :=
  (List.map_inj_right fun _ _ => BitVec.eq_of_toNat_eq).mp same

theorem table0_advances : Advances table0_ 8 := by
  refine map_toNat_injective ?_
  rw [tables_entries.1, List.map_map]
  refine List.map_congr_left fun index inside => ?_
  rw [Function.comp_apply, toNat_iterate, BitVec.toNat_ofNat, Nat.mod_eq_of_lt]
  exact Nat.lt_trans (List.mem_range.mp inside) (by decide)

/-- A table whose entries are those of another one, eight places on. -/
theorem Advances.next {table next : List (BitVec 32)} {places : Nat} (advances : Advances table places)
    (entries : next.map BitVec.toNat = (table.map BitVec.toNat).map shifted^[8]) :
    Advances next (8 + places) := by
  refine map_toNat_injective ?_
  rw [entries, advances, List.map_map, List.map_map, List.map_map]
  refine List.map_congr_left fun index _ => ?_
  rw [Function.comp_apply, Function.comp_apply, Function.comp_apply, ← toNat_iterate,
    ← Function.iterate_add_apply]

theorem table1_advances : Advances table1_ 16 := table0_advances.next tables_entries.2.1

theorem table2_advances : Advances table2_ 24 := table1_advances.next tables_entries.2.2.1

theorem table3_advances : Advances table3_ 32 := table2_advances.next tables_entries.2.2.2

theorem entry_eq {table : List (BitVec 32)} {places : Nat} (advances : Advances table places)
    {index : BitVec 32} (small : index.toNat < 256) :
    entry table index = (shift polynomial)^[places] index := by
  rw [entry, advances, List.getD, List.getElem?_map, List.getElem?_range small, Option.map_some,
    Option.getD_some, BitVec.ofNat_toNat, BitVec.setWidth_eq]

theorem toNat_low (l : BitVec 32) : (l &&& 0xff#32).toNat < 256 := by
  rw [BitVec.toNat_and]
  exact Nat.lt_of_le_of_lt Nat.and_le_right (by decide)

theorem length_stream (buf : Bytes) : (stream buf).length = 8 * buf.length := by
  induction buf with
  | nil => rfl
  | cons byte buf hypothesis =>
    rw [stream, List.flatMap_cons, List.length_append, List.length_map, List.length_range,
      ← stream, hypothesis, List.length_cons]
    omega

theorem stream_append (front back : Bytes) : stream (front ++ back) = stream front ++ stream back :=
  List.flatMap_append

theorem getD_stream (buf : Bytes) (index : Nat) :
    (stream buf).getD index false = (buf.getD (index / 8) 0).toBitVec.getLsbD (index % 8) := by
  induction buf generalizing index with
  | nil => simp [stream]
  | cons byte buf hypothesis =>
    rw [stream, List.flatMap_cons, List.getD_eq_getElem?_getD, List.getElem?_append,
      List.length_map, List.length_range, ← stream]
    by_cases low : index < 8
    · rw [if_pos low, List.getElem?_map, List.getElem?_range low, Nat.div_eq_of_lt low,
        Nat.mod_eq_of_lt low]
      rfl
    · rw [if_neg low, ← List.getD_eq_getElem?_getD, hypothesis,
        show index / 8 = (index - 8) / 8 + 1 by omega, List.getD_cons_succ,
        show (index - 8) % 8 = index % 8 by omega]

/-- The word of the first bytes, as the code loads it. -/
theorem word_stream (p : Bytes) :
    word (stream (p.take 4)) = LE_LOAD32 p := by
  refine BitVec.eq_of_getLsbD_eq fun index bound => ?_
  rw [getLsbD_word _ _ bound, getD_stream, LE_LOAD32, DecodeFixed32,
    getLsbD_decodeFixed _ _ _ bound, List.getD_eq_getElem?_getD, List.getElem?_take_of_lt (by omega),
    ← List.getD_eq_getElem?_getD]
  simp [show index < 8 * 4 by omega]

theorem getLsbD_low (l : BitVec 32) (index : Nat) :
    (l &&& 0xff#32).getLsbD index = (decide (index < 8) && l.getLsbD index) := by
  rw [BitVec.getLsbD_and, BitVec.getLsbD_ofNat, show (0xff : Nat) = 2 ^ 8 - 1 by rfl,
    Nat.testBit_two_pow_sub_one, Bool.and_comm]
  by_cases low : index < 8
  · simp [low, show index < 32 by omega]
  · simp [low]

/-- Eight places: those of the lowest byte, and the rest eight places down. -/
theorem iterate_split (count : Nat) (l : BitVec 32) :
    (shift polynomial)^[count + 8] l =
      (shift polynomial)^[count + 8] (l &&& 0xff#32) ^^^ (shift polynomial)^[count] (l >>> 8) := by
  have split : l = (l &&& 0xff#32) ^^^ (l >>> 8) <<< 8 := by
    refine BitVec.eq_of_getLsbD_eq fun index bound => ?_
    rw [BitVec.getLsbD_xor, getLsbD_low, BitVec.getLsbD_shiftLeft, BitVec.getLsbD_ushiftRight]
    by_cases low : index < 8
    · simp [low]
    · simp [low, bound, show 8 + (index - 8) = index by omega]
  have high : (shift polynomial)^[8] ((l >>> 8) <<< 8) = l >>> 8 := by
    rw [iterate_of_low _ _ _ fun index inside => by simp [inside]]
    refine BitVec.eq_of_getLsbD_eq fun index bound => ?_
    rw [BitVec.getLsbD_ushiftRight, BitVec.getLsbD_shiftLeft]
    by_cases inside : 8 + index < 32
    · simp [inside]
    · simp [inside, BitVec.getLsbD_of_ge l (8 + index) (by omega)]
  conv => lhs; rw [split]
  rw [iterate_xor, Function.iterate_add_apply _ count 8 ((l >>> 8) <<< 8), high]

/-- `STEP1` is eight places with the byte added. -/
theorem STEP1_eq (l : BitVec 32) (p : UInt8) :
    STEP1 l p = digest polynomial l (stream [p]) := by
  have same : l &&& 0xff#32 ^^^ p.toBitVec.setWidth 32 =
      (l ^^^ p.toBitVec.setWidth 32) &&& 0xff#32 := by
    refine BitVec.eq_of_getLsbD_eq fun index bound => ?_
    rw [BitVec.getLsbD_xor, getLsbD_low, getLsbD_low, BitVec.getLsbD_xor, BitVec.getLsbD_setWidth]
    by_cases low : index < 8
    · simp [low]
    · simp [low, BitVec.getLsbD_of_ge p.toBitVec index (by omega)]
  have above : (l ^^^ p.toBitVec.setWidth 32) >>> 8 = l >>> 8 := by
    refine BitVec.eq_of_getLsbD_eq fun index bound => ?_
    rw [BitVec.getLsbD_ushiftRight, BitVec.getLsbD_xor, BitVec.getLsbD_setWidth,
      BitVec.getLsbD_of_ge p.toBitVec _ (by omega), BitVec.getLsbD_ushiftRight]
    simp
  have added : word (stream [p]) = p.toBitVec.setWidth 32 := by
    refine BitVec.eq_of_getLsbD_eq fun index bound => ?_
    rw [getLsbD_word _ _ bound, getD_stream, BitVec.getLsbD_setWidth]
    by_cases low : index < 8
    · simp [Nat.div_eq_of_lt low, Nat.mod_eq_of_lt low, bound]
    · rw [List.getD_eq_getElem?_getD, List.getElem?_eq_none (by simp; omega),
        BitVec.getLsbD_of_ge p.toBitVec index (by omega)]
      simp
  have length : (stream [p]).length = 8 := length_stream [p]
  rw [STEP1, same, entry_eq table0_advances (toNat_low _),
    digest_eq_iterate _ _ _ (by rw [length]; decide), added, length,
    iterate_split 0 (l ^^^ p.toBitVec.setWidth 32), above]
  rfl

/-- `STEP4` is 32 places with the word added. -/
theorem STEP4_eq (l : BitVec 32) (p : Bytes) (enough : 4 ≤ p.length) :
    STEP4 l p = digest polynomial l (stream (p.take 4)) := by
  have length : (stream (p.take 4)).length = 32 := by
    rw [length_stream, List.length_take, Nat.min_eq_left enough]
  rw [digest_eq_iterate _ _ _ (Nat.le_of_eq length), word_stream p, length, STEP4]
  generalize l ^^^ LE_LOAD32 p = c
  have last : (c >>> 24).toNat < 256 := by
    have bound := c.isLt
    rw [BitVec.toNat_ushiftRight, Nat.shiftRight_eq_div_pow]
    omega
  rw [entry_eq table3_advances (toNat_low _), entry_eq table2_advances (toNat_low _),
    entry_eq table1_advances (toNat_low _), entry_eq table0_advances last, iterate_split 24 c,
    iterate_split 16 (c >>> 8), iterate_split 8 (c >>> 8 >>> 8), BitVec.xor_assoc, BitVec.xor_assoc]
  rfl

theorem foldl_STEP1 (l : BitVec 32) (p : Bytes) :
    p.foldl STEP1 l = digest polynomial l (stream p) := by
  induction p generalizing l with
  | nil => rfl
  | cons byte p hypothesis =>
    rw [List.foldl_cons, hypothesis, STEP1_eq, ← digest_append, ← stream_append,
      List.singleton_append]

/-- The loop over four bytes at a time leaves the register behind the bytes it has read. -/
theorem fours_eq (turns : Nat) (l : BitVec 32) (p : Bytes) (enough : 4 * turns ≤ p.length) :
    fours turns l p = (digest polynomial l (stream (p.take (4 * turns))), p.drop (4 * turns)) := by
  induction turns generalizing l p with
  | zero => rfl
  | succ turns hypothesis =>
    rw [fours, hypothesis _ _ (by rw [List.length_drop]; omega), STEP4_eq _ _ (by omega),
      ← digest_append, ← stream_append, ← List.take_add, List.drop_drop, Nat.mul_succ,
      Nat.add_comm 4]

theorem sixteens_eq (turns : Nat) (l : BitVec 32) (p : Bytes) (enough : 16 * turns ≤ p.length) :
    sixteens turns l p =
      (digest polynomial l (stream (p.take (16 * turns))), p.drop (16 * turns)) := by
  induction turns generalizing l p with
  | zero => rfl
  | succ turns hypothesis =>
    have same : sixteens (turns + 1) l p = sixteens turns (fours 4 l p).1 (p.drop 16) := by
      rw [sixteens]
      simp only [fours, List.drop_drop]
    rw [same, fours_eq 4 l p (by omega), hypothesis _ _ (by rw [List.length_drop]; omega),
      ← digest_append, ← stream_append, ← List.take_add, List.drop_drop, Nat.mul_succ 16,
      Nat.add_comm (16 * turns)]

/-- The code gives the checksum of the register, wherever the buffer lies. -/
theorem ExtendAt_eq_serial (address : Nat) (crc : BitVec 32) (buf : Bytes) :
    ExtendAt address crc buf = serial crc buf := by
  unfold ExtendAt serial
  simp only
  generalize (if ((address + 3) >>> 2) <<< 2 ≤ address + buf.length then
    ((address + 3) >>> 2) <<< 2 - address else 0) = unaligned
  have parts : buf.take unaligned ++ buf.drop unaligned = buf := List.take_append_drop ..
  generalize buf.drop unaligned = p at parts
  have many := Nat.div_mul_le_self p.length 16
  have few := Nat.div_mul_le_self (p.drop (16 * (p.length / 16))).length 4
  rw [sixteens_eq _ _ _ (by omega)]
  simp only
  rw [fours_eq _ _ _ (by omega)]
  simp only
  rw [foldl_STEP1, foldl_STEP1, ← digest_append, ← digest_append, ← digest_append,
    ← stream_append, ← stream_append, ← stream_append, List.take_append_drop,
    List.take_append_drop, parts]

/-- The checksum of a text is continued over another one, wherever the two lie. -/
theorem ExtendAt_append (address behind whole : Nat) (crc : BitVec 32) (front back : Bytes) :
    ExtendAt behind (ExtendAt address crc front) back = ExtendAt whole crc (front ++ back) := by
  rw [ExtendAt_eq_serial, ExtendAt_eq_serial, ExtendAt_eq_serial, serial, serial, serial,
    xor_cancel_right, ← digest_append, ← stream_append]

theorem Extend_append (crc : BitVec 32) (front back : Bytes) :
    Extend (Extend crc front) back = Extend crc (front ++ back) :=
  ExtendAt_append 0 0 0 crc front back

/-! ### Stored checksums -/

theorem Unmask_Mask (crc : BitVec 32) : Unmask (Mask crc) = crc := by
  unfold Unmask Mask
  simp only
  rw [BitVec.add_sub_cancel]
  refine BitVec.eq_of_getLsbD_eq fun index bound => ?_
  simp only [BitVec.getLsbD_or, BitVec.getLsbD_ushiftRight, BitVec.getLsbD_shiftLeft]
  by_cases low : index < 15
  · simp [low, show 15 + (17 + index) = 32 + index by omega, show 17 + index < 32 by omega]
  · simp [low, bound, show 15 + (index - 15) = index by omega, show ¬ 17 + index < 32 by omega,
      show index - 15 < 17 by omega, BitVec.getLsbD_of_ge crc (15 + (17 + index)) (by omega)]

theorem Mask_injective : Function.Injective Mask := fun one two same => by
  rw [← Unmask_Mask one, same, Unmask_Mask]

/-- Two buffers that differ in one stretch of at most 32 bits have different stored checksums,
wherever they lie. -/
theorem stored_ne (address other : Nat) (crc : BitVec 32) (one two : Bytes)
    (front inOne inTwo back : List Bool) (oneEq : stream one = front ++ inOne ++ back)
    (twoEq : stream two = front ++ inTwo ++ back) (lengths : inOne.length = inTwo.length)
    (short : inOne.length ≤ 32) (different : inOne ≠ inTwo) :
    Mask (ExtendAt address crc one) ≠ Mask (ExtendAt other crc two) := by
  intro same
  have equal := Mask_injective same
  rw [ExtendAt_eq_serial, ExtendAt_eq_serial, serial, serial, oneEq, twoEq,
    BitVec.xor_left_inj] at equal
  exact digest_ne (by decide) _ _ _ _ _ lengths short different equal

theorem stored_ne_once : Mask (ExtendAt 1 0 [7, 1, 7]) ≠ Mask (ExtendAt 6 0 [7, 2, 7]) :=
  stored_ne 1 6 0 [7, 1, 7] [7, 2, 7] (stream [7]) (stream [1]) (stream [2]) (stream [7]) rfl rfl rfl
    (by decide) (by decide)

end Crc32c

end LevelDBLib.Navi
